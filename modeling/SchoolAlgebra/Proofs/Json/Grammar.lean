import SchoolAlgebra.Proofs.Json.Numeral
import SchoolAlgebra.Proofs.Json.Strings

/-!
# The grammar of JSON

The grammar of RFC 8259 as a relation between a text, what it denotes, and what stands behind it.
Blanks may stand around every value, name and sign.

Blanks end where something visible begins, and the first visible character tells which kind of value
stands there.

## Texts with something behind them

Each relation of the grammar is between three things: the text from a place on, what is denoted
there, and the text behind it. In this form the rules have no concatenations in them, and a
derivation is followed from the front, as one reads. That a text as a whole is JSON says that
nothing is left behind its one value.

## Main definitions

* `Json.Datum` — what a JSON text denotes
* `Json.Value`, `Json.Element`, `Json.Items`, `Json.Members` — the grammar
* `Json.Denotes` — a text as a whole is JSON and denotes something

## Main results

* `Json.Blanks.unique` — where blanks end
* `Json.Value.of_null`, `Json.Value.of_quotationMark`, `Json.Value.of_bracket`,
  `Json.Value.of_brace`, `Json.Value.of_isNumeric`, `Json.Value.not_of_mem` — the first character
-/

namespace SchoolAlgebra

namespace Json

/-! ### What a text denotes -/

/-- What a JSON text denotes: a string its UTF-16 units, an object its members in order. -/
inductive Datum where
  | null
  | boolean (b : Bool)
  | integer (n : Int)
  | number (x : Binary64)
  | string (units : List Nat)
  | array (items : List Datum)
  | object (members : List (List Nat × Datum))

/-- What a numeral denotes. -/
def Numeral.datum (n : Numeral) : Datum :=
  match n.integer? with
  | some k => .integer k
  | none => .number n.number

/-! ### The grammar

The rules are those of the RFC, with one relation each for values, items and members. A numeral is
the one rule that does not end by itself: what stands behind it may go on with it, and it is left to
the uses of the relation to exclude this. -/

/-- Whether a character is a blank. -/
def isBlank (c : Char) : Bool := c ∈ [' ', '\t', '\n', '\r']

/-- Blanks, possibly none, and what stands behind. -/
def Blanks (chars rest : List Char) : Prop :=
  ∃ run, (∀ c ∈ run, isBlank c = true) ∧ chars = run ++ rest

mutual

/-- A value and what stands behind. -/
inductive Value : List Char → Datum → List Char → Prop
  | nullWord (rest : List Char) : Value ('n' :: 'u' :: 'l' :: 'l' :: rest) .null rest
  | trueWord (rest : List Char) : Value ('t' :: 'r' :: 'u' :: 'e' :: rest) (.boolean true) rest
  | falseWord (rest : List Char) :
      Value ('f' :: 'a' :: 'l' :: 's' :: 'e' :: rest) (.boolean false) rest
  | numeral (n : Numeral) (rest : List Char) : Value (n.text ++ rest) n.datum rest
  | string {chars rest : List Char} {units : List Nat} (h : Chars chars units rest) :
      Value ('"' :: chars) (.string units) rest
  | emptyArray {chars rest : List Char} (h : Blanks chars (']' :: rest)) :
      Value ('[' :: chars) (.array []) rest
  | array {chars rest : List Char} {items : List Datum} (h : Items chars items rest) :
      Value ('[' :: chars) (.array items) rest
  | emptyObject {chars rest : List Char} (h : Blanks chars ('\x7d' :: rest)) :
      Value ('\x7b' :: chars) (.object []) rest
  | object {chars rest : List Char} {members : List (List Nat × Datum)}
      (h : Members chars members rest) : Value ('\x7b' :: chars) (.object members) rest

/-- A value with blanks around it, and what stands behind. -/
inductive Element : List Char → Datum → List Char → Prop
  | mk {chars chars₁ chars₂ rest : List Char} {d : Datum} (before : Blanks chars chars₁)
      (value : Value chars₁ d chars₂) (behind : Blanks chars₂ rest) : Element chars d rest

/-- The items of an array up to the closing bracket, and what stands behind that. -/
inductive Items : List Char → List Datum → List Char → Prop
  | last {chars rest : List Char} {d : Datum} (item : Element chars d (']' :: rest)) :
      Items chars [d] rest
  | cons {chars chars₁ rest : List Char} {d : Datum} {ds : List Datum}
      (item : Element chars d (',' :: chars₁)) (more : Items chars₁ ds rest) :
      Items chars (d :: ds) rest

/-- A name, a colon and a value, and what stands behind. -/
inductive Member : List Char → List Nat → Datum → List Char → Prop
  | mk {chars chars₁ chars₂ chars₃ rest : List Char} {name : List Nat} {d : Datum}
      (before : Blanks chars ('"' :: chars₁)) (units : Chars chars₁ name chars₂)
      (behind : Blanks chars₂ (':' :: chars₃)) (value : Element chars₃ d rest) :
      Member chars name d rest

/-- The members of an object up to the closing brace, and what stands behind that. -/
inductive Members : List Char → List (List Nat × Datum) → List Char → Prop
  | last {chars rest : List Char} {name : List Nat} {d : Datum}
      (member : Member chars name d ('\x7d' :: rest)) : Members chars [(name, d)] rest
  | cons {chars chars₁ rest : List Char} {name : List Nat} {d : Datum}
      {more : List (List Nat × Datum)} (member : Member chars name d (',' :: chars₁))
      (others : Members chars₁ more rest) : Members chars ((name, d) :: more) rest

end

/-- The text as a whole is valid JSON and denotes this. -/
def Denotes (text : String) (d : Datum) : Prop := Element text.toList d []

/-! ### Blanks -/

theorem Blanks.refl (chars : List Char) : Blanks chars chars :=
  ⟨[], List.forall_mem_nil _, rfl⟩

theorem Blanks.cons {c : Char} {chars rest : List Char} (hc : isBlank c = true)
    (h : Blanks chars rest) : Blanks (c :: chars) rest := by
  obtain ⟨run, hrun, rfl⟩ := h
  exact ⟨c :: run, List.forall_mem_cons.mpr ⟨hc, hrun⟩, rfl⟩

/-- A blank more before the first value. -/
theorem Element.cons_space {chars rest : List Char} {d : Datum} (h : Element chars d rest) :
    Element (' ' :: chars) d rest := by
  obtain ⟨before, value, behind⟩ := h
  exact ⟨before.cons rfl, value, behind⟩

theorem Items.cons_space {chars rest : List Char} {ds : List Datum} (h : Items chars ds rest) :
    Items (' ' :: chars) ds rest := by
  cases h with
  | last item => exact .last item.cons_space
  | cons item more => exact .cons item.cons_space more

theorem Member.cons_space {chars rest : List Char} {name : List Nat} {d : Datum}
    (h : Member chars name d rest) : Member (' ' :: chars) name d rest := by
  obtain ⟨before, units, behind, value⟩ := h
  exact ⟨before.cons rfl, units, behind, value⟩

theorem Members.cons_space {chars rest : List Char} {members : List (List Nat × Datum)}
    (h : Members chars members rest) : Members (' ' :: chars) members rest := by
  cases h with
  | last member => exact .last member.cons_space
  | cons member others => exact .cons member.cons_space others

theorem Value.element {chars rest : List Char} {d : Datum} (h : Value chars d rest) :
    Element chars d rest :=
  ⟨.refl chars, h, .refl rest⟩

/-! ### The first visible character

No two kinds of values begin with the same character, so a derivation can be taken apart as soon as
that character is known. Signs that end a value begin none, and this is why an array that has items
does not end before them. -/

/-- Nothing stands behind, or a sign that neither is a blank nor continues a numeral. -/
def Separated (rest : List Char) : Prop :=
  ∀ c ∈ rest.head?, Numeral.isNumeric c = false ∧ isBlank c = false

theorem separated_cons {c : Char} (h : Numeral.isNumeric c = false ∧ isBlank c = false)
    (rest : List Char) : Separated (c :: rest) := by
  rintro d ⟨⟩
  exact h

theorem separated_nil : Separated [] := nofun

/-- A text begins with a character that is no blank. -/
def BeginsVisibly (chars : List Char) : Prop := ∀ c ∈ chars.head?, isBlank c = false

theorem beginsVisibly_cons {c : Char} (h : isBlank c = false) (rest : List Char) :
    BeginsVisibly (c :: rest) := by
  rintro d ⟨⟩
  exact h

theorem isNumeric_eq_false_of_isBlank {c : Char} (h : isBlank c = true) :
    Numeral.isNumeric c = false := by
  have hall : ∀ c ∈ [' ', '\t', '\n', '\r'], Numeral.isNumeric c = false := by
    simp [Numeral.isNumeric]
  exact hall c (of_decide_eq_true h)

theorem isBlank_eq_false_of_isNumeric {c : Char} (h : Numeral.isNumeric c = true) :
    isBlank c = false := by
  by_contra hblank
  rw [isNumeric_eq_false_of_isBlank (Bool.not_eq_false _ ▸ hblank)] at h
  cases h

/-- Two runs of blanks before what is visible are the same. -/
theorem Blanks.unique {chars rest rest' : List Char} (h : Blanks chars rest)
    (h' : Blanks chars rest') (hrest : BeginsVisibly rest) (hrest' : BeginsVisibly rest') :
    rest = rest' := by
  obtain ⟨run, hrun, rfl⟩ := h
  obtain ⟨run', hrun', heq⟩ := h'
  exact (append_inj_of_forall isBlank hrun hrun' hrest hrest' heq).2

/-- There are no blanks before what is visible. -/
theorem Blanks.eq_of_cons {c c' : Char} {chars rest : List Char}
    (h : Blanks (c :: chars) (c' :: rest)) (hc : isBlank c = false) (hc' : isBlank c' = false) :
    c' :: rest = c :: chars :=
  Blanks.unique h (.refl _) (beginsVisibly_cons hc' rest) (beginsVisibly_cons hc chars)

/-- A value begins with a character that is no blank. -/
theorem Value.beginsVisibly {chars rest : List Char} {d : Datum} (h : Value chars d rest) :
    BeginsVisibly chars := by
  cases h with
  | numeral n =>
    obtain ⟨c, more, hmore, -⟩ := n.exists_text_eq_cons
    rintro c' hc'
    refine isBlank_eq_false_of_isNumeric (n.forall_isNumeric c' ?_)
    rw [hmore] at hc' ⊢
    cases hc'
    exact List.mem_cons_self
  | _ =>
    rintro c ⟨⟩
    decide

/-- What does not begin like a numeral begins with none. -/
theorem Numeral.text_append_ne {c : Char} {chars rest : List Char} (n : Numeral)
    (hc : isNumeric c = false) : n.text ++ rest ≠ c :: chars := by
  intro h
  obtain ⟨c', more, hmore, -⟩ := n.exists_text_eq_cons
  have hnumeric := n.forall_isNumeric c' (hmore ▸ List.mem_cons_self)
  rw [hmore] at h
  cases h
  rw [hc] at hnumeric
  cases hnumeric

variable {c : Char} {chars rest : List Char} {d : Datum}

theorem Value.of_null (h : Value ('n' :: chars) d rest) :
    chars = 'u' :: 'l' :: 'l' :: rest ∧ d = .null := by
  generalize hchars : 'n' :: chars = text at h
  cases h with
  | nullWord => exact ⟨(List.cons.inj hchars).2, rfl⟩
  | numeral n => exact absurd hchars.symm (n.text_append_ne rfl)
  | _ => cases hchars

theorem Value.of_quotationMark (h : Value ('"' :: chars) d rest) :
    ∃ units, Chars chars units rest ∧ d = .string units := by
  generalize hchars : '"' :: chars = text at h
  cases h with
  | string h =>
    cases hchars
    exact ⟨_, h, rfl⟩
  | numeral n => exact absurd hchars.symm (n.text_append_ne rfl)
  | _ => cases hchars

theorem Value.of_bracket (h : Value ('[' :: chars) d rest) :
    (Blanks chars (']' :: rest) ∧ d = .array []) ∨
      ∃ items, Items chars items rest ∧ d = .array items := by
  generalize hchars : '[' :: chars = text at h
  cases h with
  | emptyArray h =>
    cases hchars
    exact .inl ⟨h, rfl⟩
  | array h =>
    cases hchars
    exact .inr ⟨_, h, rfl⟩
  | numeral n => exact absurd hchars.symm (n.text_append_ne rfl)
  | _ => cases hchars

theorem Value.of_brace (h : Value ('\x7b' :: chars) d rest) :
    (Blanks chars ('\x7d' :: rest) ∧ d = .object []) ∨
      ∃ members, Members chars members rest ∧ d = .object members := by
  generalize hchars : '\x7b' :: chars = text at h
  cases h with
  | emptyObject h =>
    cases hchars
    exact .inl ⟨h, rfl⟩
  | object h =>
    cases hchars
    exact .inr ⟨_, h, rfl⟩
  | numeral n => exact absurd hchars.symm (n.text_append_ne rfl)
  | _ => cases hchars

/-- What begins like a numeral is one. -/
theorem Value.of_isNumeric (h : Value (c :: chars) d rest) (hc : Numeral.isNumeric c = true) :
    ∃ n : Numeral, n.text ++ rest = c :: chars ∧ d = n.datum := by
  generalize hchars : c :: chars = text at h
  cases h with
  | numeral n => exact ⟨n, rfl, rfl⟩
  | _ =>
    cases hchars
    cases hc

/-- No value begins with a sign that ends one, nor with the word for an infinity. -/
theorem Value.not_of_mem (hc : c ∈ [']', '\x7d', 'I']) : ¬ Value (c :: chars) d rest := by
  intro h
  generalize hchars : c :: chars = text at h
  have hnumeric : Numeral.isNumeric c = false := by
    have hall : ∀ c ∈ [']', '\x7d', 'I'], Numeral.isNumeric c = false := by
      simp [Numeral.isNumeric]
    exact hall c hc
  cases h with
  | numeral n => exact n.text_append_ne hnumeric hchars.symm
  | _ =>
    cases hchars
    revert hc
    decide

/-- Nothing can be read where an array or an object ends. -/
theorem Element.not_of_mem (hc : c ∈ [']', '\x7d', 'I']) : ¬ Element (c :: chars) d rest := by
  rintro ⟨before, hvalue, -⟩
  have hall : ∀ c ∈ [']', '\x7d', 'I'], isBlank c = false := by simp [isBlank]
  obtain rfl := Blanks.unique before (.refl _) hvalue.beginsVisibly
    (beginsVisibly_cons (hall c hc) _)
  exact Value.not_of_mem hc hvalue

theorem Items.not_closed {ds : List Datum} : ¬ Items (']' :: chars) ds rest := by
  intro h
  cases h with
  | last item | cons item => exact item.not_of_mem (by decide)

theorem Members.not_closed {ds : List (List Nat × Datum)} :
    ¬ Members ('\x7d' :: chars) ds rest := by
  have hmember {name : List Nat} {d : Datum} {rest : List Char} :
      ¬ Member ('\x7d' :: chars) name d rest := by
    rintro ⟨before, -, -, -⟩
    have heq := before.eq_of_cons rfl rfl
    cases heq
  intro h
  cases h with
  | last member | cons member => exact hmember member

/-- The sign at the end of a value separates it. -/
theorem separated_sign (hc : c ∈ [',', ']', '\x7d']) (rest : List Char) :
    Separated (c :: rest) := by
  have hall : ∀ c ∈ [',', ']', '\x7d'], Numeral.isNumeric c = false ∧ isBlank c = false := by
    simp [Numeral.isNumeric, isBlank]
  exact separated_cons (hall c hc) rest

end Json

end SchoolAlgebra
