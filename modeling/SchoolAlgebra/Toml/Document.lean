import SchoolAlgebra.Toml.Number

/-!
# TOML documents

`Toml.read?` reads a document into the fields of its top table; there is none for a text that is not
TOML.

## Implementation notes

A document may come back to a table several times, and what it may still add to a table depends on
how the table came about. `Document` keeps, besides the fields, the paths of the tables that have
had a header, of those that a dotted key has opened since the last header, and of the inline values,
into which nothing can be written.
-/

namespace SchoolAlgebra

namespace Toml

open Reader

/-- A way to a value through nested tables. -/
abbrev Path : Type := List String

/-! ### Writing into nested tables -/

/-- Changes the table at a path, which is made if it is missing. The way through an array of tables
leads into its last table, unless that is not wanted. -/
def Fields.modifyAt? (throughArrays : Bool) (change : Fields → Option Fields) :
    Path → Fields → Option Fields
  | [], fields => change fields
  | key :: path, fields =>
    match fields.find? key with
    | none =>
      (modifyAt? throughArrays change path []).map fun inner => fields.put key (.table inner)
    | some (.table inner) =>
      (modifyAt? throughArrays change path inner).map fun inner => fields.put key (.table inner)
    | some (.array items) =>
      match throughArrays, items.getLast? with
      | true, some (.table inner) =>
        (modifyAt? throughArrays change path inner).map fun inner =>
          fields.put key (.array (items.dropLast ++ [.table inner]))
      | _, _ => none
    | some _ => none

/-- Adds a field, which must be new. -/
def Fields.add? (key : String) (value : Value) (fields : Fields) : Option Fields :=
  if (fields.find? key).isSome then none else some (fields ++ [(key, value)])

/-- Adds an empty table to the array of tables at a key. -/
def Fields.append? (key : String) (fields : Fields) : Option Fields :=
  match fields.find? key with
  | none => some (fields ++ [(key, .array [.table []])])
  | some (.array items) => some (fields.put key (.array (items ++ [.table []])))
  | some _ => none

/-- Whether a value is an array or a table. -/
def Value.isContainer : Value → Bool
  | .array _ | .table _ => true
  | _ => false

/-- Whether a path leads to one of some values or into it. -/
def isWithin (path : Path) (values : List Path) : Bool := values.any (·.isPrefixOf path)

/-! ### Values -/

mutual

/-- A value. -/
def value : (fuel : Nat) → Reader Value
  | 0 => failure
  | fuel + 1 => do
    if ← accept "\"\"\"" then return .string (String.ofList (← linesString '"'))
    if ← accept "'''" then return .string (String.ofList (← linesString '\''))
    if ← accept "\"" then return .string (String.ofList (← lineString '"'))
    if ← accept "'" then return .string (String.ofList (← lineString '\''))
    if ← accept "true" then return .boolean true
    if ← accept "false" then return .boolean false
    if ← accept "[" then
      skipLines ((← get).length + 1)
      if ← accept "]" then return .array []
      return .array (← items fuel)
    if ← accept "\x7b" then
      skipWhile isLineBlank
      if ← accept "\x7d" then return .table []
      return .table (← inlineFields fuel [] [])
    match ← Reader.optional moment? with
    | some moment => if moment.exists? then return .moment moment else failure
    | none => mustTake number?

/-- The items of an array, up to and with its closing bracket. -/
def items : (fuel : Nat) → Reader (List Value)
  | 0 => failure
  | fuel + 1 => do
    let item ← value fuel
    skipLines ((← get).length + 1)
    if ← accept "]" then return [item]
    expect ","
    skipLines ((← get).length + 1)
    if ← accept "]" then return [item]
    return item :: (← items fuel)

/-- The fields of an inline table, up to and with its closing brace, added to those before them. A
field cannot write into an inline value before it. -/
def inlineFields (fuel : Nat) (sealed : List Path) (fields : Fields) : Reader Fields :=
  match fuel with
  | 0 => failure
  | fuel + 1 => do
    let path ← key
    expect "="
    skipWhile isLineBlank
    let v ← value fuel
    if isWithin path sealed then failure
    match fields.modifyAt? false (Fields.add? (path.getLast?.getD "") v) path.dropLast with
    | none => failure
    | some fields =>
      skipWhile isLineBlank
      if ← accept "\x7d" then return fields
      expect ","
      skipWhile isLineBlank
      inlineFields fuel (if v.isContainer then path :: sealed else sealed) fields

end

/-! ### Statements -/

/-- A document as far as it has been read. -/
structure Document where
  /-- The fields of the top table. -/
  fields : Fields
  /-- The table that the last header names. -/
  header : Path
  /-- The tables that a header names, and those that dotted keys opened before the last header. -/
  declared : List Path
  /-- The tables that dotted keys have opened since the last header. -/
  opened : List Path
  /-- The inline arrays and tables. -/
  sealed : List Path

namespace Document

/-- A document before its first statement. -/
def empty : Document := ⟨[], [], [], [], []⟩

/-- The document at a new header: the tables opened since the last one are closed to dotted keys. -/
def closeOpened (d : Document) : Document :=
  { d with declared := d.opened ++ d.declared, opened := [] }

/-- The document after the header of a table. -/
def declareTable? (d : Document) (path : Path) : Option Document := do
  if d.declared.contains path || isWithin path d.sealed then failure
  let fields ← d.fields.modifyAt? true some path
  return { d with fields, header := path, declared := path :: d.declared }

/-- The document after the header of an array of tables: what was said of the tables inside the last
one does not hold for the new one. -/
def declareArray? (d : Document) (path : Path) : Option Document := do
  if isWithin path d.sealed then failure
  let outside (other : Path) := !path.isPrefixOf other
  let fields ← d.fields.modifyAt? true (Fields.append? (path.getLast?.getD "")) path.dropLast
  return { d with
    fields, header := path, declared := path :: d.declared.filter outside,
    sealed := d.sealed.filter outside }

/-- The tables that a dotted key leads through, below the last header. -/
def leadingPaths (d : Document) (path : Path) : List Path :=
  (List.range path.length).tail.map fun n => d.header ++ path.take n

/-- The document after a key and its value. -/
def assign? (d : Document) (path : Path) (v : Value) : Option Document := do
  let leading := d.leadingPaths path
  if leading.any d.declared.contains then failure
  let parent := d.header ++ path.dropLast
  if isWithin parent d.sealed then failure
  let fields ← d.fields.modifyAt? true (Fields.add? (path.getLast?.getD "") v) parent
  return { d with
    fields, opened := leading ++ d.opened,
    sealed := if v.isContainer then (d.header ++ path) :: d.sealed else d.sealed }

end Document

/-- Takes the header of a table or of an array of tables. -/
def header (d : Document) : Reader Document := do
  let isArray ← accept "[["
  if !isArray then expect "["
  skipWhile isLineBlank
  let path ← key
  expect (if isArray then "]]" else "]")
  match if isArray then d.closeOpened.declareArray? path else d.closeOpened.declareTable? path with
  | some d => return d
  | none => failure

/-- Takes a key and its value. -/
def assignment (d : Document) : Reader Document := do
  let path ← key
  expect "="
  skipWhile isLineBlank
  let v ← value (2 * (← get).length + 2)
  match d.assign? path v with
  | some d => return d
  | none => failure

/-- Whether a line that starts with a character has a statement. -/
def startsKey (c : Char) : Bool := isBareKeyChar c || c = '"' || c = '\''

/-- Takes the statement of a line, if it has one. -/
def statement (d : Document) : Reader Document := do
  skipWhile isLineBlank
  match ← peek? with
  | some '[' => header d
  | some c => if startsKey c then assignment d else return d
  | none => return d

/-- Takes the lines of a document. A statement may be followed by a comment, and must then be at the
end of its line. -/
def statements : (fuel : Nat) → Document → Reader Document
  | 0, _ => failure
  | fuel + 1, d => do
    let d ← statement d
    skipWhile isLineBlank
    skipComment
    if ← accept "\n" then statements fuel d
    else if (← get).isEmpty then return d
    else failure

/-- A text with each carriage return before a line feed left out. -/
def joinLineEnds : List Char → List Char
  | '\r' :: '\n' :: rest => '\n' :: joinLineEnds rest
  | c :: rest => c :: joinLineEnds rest
  | [] => []

/-- The fields of the top table of a document. -/
def read? (text : String) : Option Fields :=
  let chars := joinLineEnds text.toList
  ((statements (chars.length + 1) .empty).run chars).map fun r => r.1.fields

end Toml

end SchoolAlgebra
