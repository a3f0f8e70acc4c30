import SchoolAlgebra.Proofs.Json.Grammar

/-!
# What printed JSON denotes

What is printed of a value can be read in one way only: as the value itself if all its numbers are
finite, and in no way otherwise, since an infinity is written as a word that the grammar does not
have.

Both directions go along the printed value. Reading a printed value ends where printing did, because
a sign or the end of the text stands there, and these neither continue a numeral nor are blanks.

## Two inductions over one value

That a printed value is in the grammar is shown by giving the derivation. That it can be read in no
other way is shown for any derivation of the printed text: by its first character it is of the same
kind as the value, and each of its parts is a derivation of the text of a part. An infinity has no
derivation at all, and a value with an infinity in it has none because one of its parts has none.

## Main definitions

* `Json.datum?` — what the text of a value should denote

## Main results

* `Json.value_textIn` — what is printed is in the grammar
* `Json.readsOnlyAs` — it can be read in no other way
* `Json.denotes_textIn_iff` — what the text of a value denotes
* `Json.onLine_charsIn` — what is printed stays on a line
-/

namespace SchoolAlgebra

namespace Json

/-! ### What should be denoted -/

mutual

/-- What the text of a value should denote: the value itself. An infinity is no number of JSON. -/
def datum? : Json → Option Datum
  | .null => some .null
  | .integer n => some (.integer n)
  | .number (.finite x) => some (.number (.finite x))
  | .number (.infinite _) => none
  | .string text => some (.string (Text.utf16 text.toList))
  | .array items => (itemData? items).map .array
  | .object fields => (fieldData? fields).map .object

/-- What the items of an array should denote. -/
def itemData? : List Json → Option (List Datum)
  | [] => some []
  | item :: rest => item.datum?.bind fun d => (itemData? rest).map (d :: ·)

/-- What the fields of an object should denote. -/
def fieldData? : List (String × Json) → Option (List (List Nat × Datum))
  | [] => some []
  | (name, value) :: rest =>
    value.datum?.bind fun d => (fieldData? rest).map ((Text.utf16 name.toList, d) :: ·)

end

theorem itemData?_cons {item : Json} {more : List Json} {d : Datum} {ds : List Datum}
    (hd : item.datum? = some d) (hds : itemData? more = some ds) :
    itemData? (item :: more) = some (d :: ds) := by
  rw [itemData?, hd, hds]
  rfl

theorem fieldData?_cons (name : String) {value : Json} {more : List (String × Json)} {d : Datum}
    {ds : List (List Nat × Datum)} (hd : value.datum? = some d) (hds : fieldData? more = some ds) :
    fieldData? ((name, value) :: more) = some ((Text.utf16 name.toList, d) :: ds) := by
  rw [fieldData?, hd, hds]
  rfl

/-! ### What is printed is in the grammar

Items and members are printed with signs and blanks between them, and the last one with the sign
that closes the whole. The lists are therefore taken apart as the rules of the grammar do, into one
part, or one part and the rest. -/

/-- The characters of a printed value. -/
def charsIn (charset : Charset) (value : Json) : List Char := (value.textIn charset).toList

/-- The characters of printed items. -/
def itemChars (charset : Charset) (items : List Json) : List Char :=
  (", ".intercalate (itemTexts charset items)).toList

/-- The characters of printed fields. -/
def fieldChars (charset : Charset) (fields : List (String × Json)) : List Char :=
  (", ".intercalate (fieldTexts charset fields)).toList

variable {charset : Charset}

theorem charsIn_null (rest : List Char) :
    charsIn charset .null ++ rest = 'n' :: 'u' :: 'l' :: 'l' :: rest := by
  simp [charsIn, textIn]

theorem charsIn_infinite (negative : Bool) (rest : List Char) :
    charsIn charset (.number (.infinite negative)) ++ rest =
      (if negative then ['-'] else []) ++ 'I' :: ("nfinity".toList ++ rest) := by
  cases negative <;> simp [charsIn, textIn, numberText]

theorem charsIn_array (items : List Json) (rest : List Char) :
    charsIn charset (.array items) ++ rest = '[' :: (itemChars charset items ++ ']' :: rest) := by
  simp [charsIn, textIn, itemChars]

theorem charsIn_object (fields : List (String × Json)) (rest : List Char) :
    charsIn charset (.object fields) ++ rest =
      '\x7b' :: (fieldChars charset fields ++ '\x7d' :: rest) := by
  simp [charsIn, textIn, fieldChars]

theorem charsIn_string (text : String) (rest : List Char) :
    charsIn charset (.string text) ++ rest =
      '"' :: (text.toList.flatMap (escape charset) ++ '"' :: rest) := by
  simp [charsIn, textIn, quote]

theorem itemChars_singleton (item : Json) : itemChars charset [item] = charsIn charset item := by
  simp [itemChars, itemTexts, charsIn]

theorem itemChars_cons_cons (item next : Json) (more : List Json) :
    itemChars charset (item :: next :: more) =
      charsIn charset item ++ ',' :: ' ' :: itemChars charset (next :: more) := by
  simp [itemChars, itemTexts, charsIn, String.intercalate_cons_cons]

/-- The characters of a printed field. -/
def memberChars (charset : Charset) (name : String) (value : Json) : List Char :=
  '"' :: (name.toList.flatMap (escape charset) ++ '"' :: ':' :: ' ' :: charsIn charset value)

theorem memberChars_append (name : String) (value : Json) (rest : List Char) :
    memberChars charset name value ++ rest =
      '"' :: (name.toList.flatMap (escape charset) ++
        '"' :: ':' :: ' ' :: (charsIn charset value ++ rest)) := by
  simp [memberChars]

theorem fieldChars_singleton (name : String) (value : Json) :
    fieldChars charset [(name, value)] = memberChars charset name value := by
  simp [fieldChars, fieldTexts, memberChars, charsIn, quote]

theorem fieldChars_cons_cons (name : String) (value : Json) (next : String × Json)
    (more : List (String × Json)) :
    fieldChars charset ((name, value) :: next :: more) =
      memberChars charset name value ++ ',' :: ' ' :: fieldChars charset (next :: more) := by
  obtain ⟨name', value'⟩ := next
  simp [fieldChars, fieldTexts, memberChars, charsIn, quote, String.intercalate_cons_cons]

/-- A printed field is in the grammar if its value is. -/
theorem member_memberChars (name : String) {value : Json} {d : Datum}
    (h : ∀ rest, Value (charsIn charset value ++ rest) d rest) (rest : List Char) :
    Member (memberChars charset name value ++ rest) (Text.utf16 name.toList) d rest := by
  have hname := chars_flatMap_escape charset name.toList
    (':' :: ' ' :: (charsIn charset value ++ rest))
  rw [memberChars_append]
  exact ⟨.refl _, hname, .refl _, (h rest).element.cons_space⟩

mutual

/-- **What is printed is in the grammar.** -/
theorem value_textIn (charset : Charset) : (value : Json) → {d : Datum} → value.datum? = some d →
    (rest : List Char) → Value (charsIn charset value ++ rest) d rest
  | .null, _, h, rest => by
    cases h
    rw [charsIn_null]
    exact .nullWord rest
  | .integer n, _, h, rest => by
    cases h
    obtain ⟨m, htext, hinteger⟩ := exists_numeral_toString n
    have hdatum : m.datum = .integer n := by rw [Numeral.datum, hinteger]
    rw [charsIn, textIn, ← htext, ← hdatum]
    exact .numeral m rest
  | .number (.finite x), _, h, rest => by
    cases h
    obtain ⟨m, htext, hinteger, hnumber⟩ := exists_numeral_fullText x
    have hdatum : m.datum = .number (.finite x) := by rw [Numeral.datum, hinteger, hnumber]
    rw [charsIn, textIn, numberText, ← htext, ← hdatum]
    exact .numeral m rest
  | .number (.infinite _), _, h, _ => nomatch h
  | .string text, _, h, rest => by
    cases h
    rw [charsIn_string]
    exact .string (chars_flatMap_escape charset text.toList rest)
  | .array [], _, h, rest => by
    cases h
    rw [charsIn_array]
    exact .emptyArray (.refl _)
  | .array (item :: items), _, h, rest => by
    obtain ⟨ds, hds, rfl⟩ := Option.map_eq_some_iff.mp h
    rw [charsIn_array]
    exact .array (items_itemTexts charset (item :: items) (List.cons_ne_nil _ _) hds rest)
  | .object [], _, h, rest => by
    cases h
    rw [charsIn_object]
    exact .emptyObject (.refl _)
  | .object (field :: fields), _, h, rest => by
    obtain ⟨ds, hds, rfl⟩ := Option.map_eq_some_iff.mp h
    rw [charsIn_object]
    exact .object (members_fieldTexts charset (field :: fields) (List.cons_ne_nil _ _) hds rest)

/-- Printed items are in the grammar. -/
theorem items_itemTexts (charset : Charset) : (items : List Json) → items ≠ [] →
    {ds : List Datum} → itemData? items = some ds → (rest : List Char) →
      Items (itemChars charset items ++ ']' :: rest) ds rest
  | [], hne, _, _, _ => absurd rfl hne
  | [item], _, _, h, rest => by
    obtain ⟨d, hd, h⟩ := Option.bind_eq_some_iff.mp h
    cases h
    rw [itemChars_singleton]
    exact .last (value_textIn charset item hd (']' :: rest)).element
  | item :: next :: more, _, _, h, rest => by
    obtain ⟨d, hd, h⟩ := Option.bind_eq_some_iff.mp h
    obtain ⟨ds, hds, rfl⟩ := Option.map_eq_some_iff.mp h
    have hmore := items_itemTexts charset (next :: more) (List.cons_ne_nil _ _) hds rest
    rw [itemChars_cons_cons, List.append_assoc]
    exact .cons (value_textIn charset item hd _).element hmore.cons_space

/-- Printed fields are in the grammar. -/
theorem members_fieldTexts (charset : Charset) : (fields : List (String × Json)) → fields ≠ [] →
    {ds : List (List Nat × Datum)} → fieldData? fields = some ds → (rest : List Char) →
      Members (fieldChars charset fields ++ '\x7d' :: rest) ds rest
  | [], hne, _, _, _ => absurd rfl hne
  | [(name, value)], _, _, h, rest => by
    obtain ⟨d, hd, h⟩ := Option.bind_eq_some_iff.mp h
    cases h
    rw [fieldChars_singleton]
    exact .last (member_memberChars name (value_textIn charset value hd) _)
  | (name, value) :: next :: more, _, _, h, rest => by
    obtain ⟨d, hd, h⟩ := Option.bind_eq_some_iff.mp h
    obtain ⟨ds, hds, rfl⟩ := Option.map_eq_some_iff.mp h
    have hmore := members_fieldTexts charset (next :: more) (List.cons_ne_nil _ _) hds rest
    rw [fieldChars_cons_cons, List.append_assoc]
    exact .cons (member_memberChars name (value_textIn charset value hd) _) hmore.cons_space

end

/-! ### What is printed can be read in one way only

`ReadsOnlyAs` is stated with any separated text behind the value. Within an array or an object a
comma or a bracket stands there, and at the end of the text nothing does, and each of these is
separated. -/

variable {c : Char} {chars rest : List Char} {d : Datum}

/-- The word for an infinity is no value, also behind a minus sign. -/
theorem Value.not_infinity (negative : Bool) :
    ¬ Value (charsIn charset (.number (.infinite negative)) ++ chars) d rest := by
  rw [charsIn_infinite]
  intro h
  cases negative with
  | false => exact not_of_mem (by decide) h
  | true =>
    obtain ⟨n, hn, -⟩ := of_isNumeric h rfl
    obtain ⟨c, more, hdigit, hc⟩ := n.beginsWithDigit_mantissa
    rw [Numeral.text, List.append_assoc, hdigit, Numeral.signText] at hn
    split at hn
    · obtain ⟨rfl, -⟩ := List.cons.inj (List.cons.inj hn).2
      cases hc
    · obtain ⟨rfl, -⟩ := List.cons.inj hn
      cases hc

/-- A printed value begins with a character that neither is a blank nor ends an array. -/
theorem exists_charsIn_eq_cons (charset : Charset) (value : Json) (rest : List Char) :
    ∃ c more, charsIn charset value ++ rest = c :: more ∧ isBlank c = false ∧ c ≠ ']' := by
  have hnumeral (n : Numeral) :
      ∃ c more, n.text ++ rest = c :: more ∧ isBlank c = false ∧ c ≠ ']' := by
    obtain ⟨c, more, hmore, -⟩ := n.exists_text_eq_cons
    have hnumeric := n.forall_isNumeric c (hmore ▸ List.mem_cons_self)
    refine ⟨c, more ++ rest, by rw [hmore]; rfl, isBlank_eq_false_of_isNumeric hnumeric, ?_⟩
    rintro rfl
    cases hnumeric
  cases value with
  | null => exact ⟨_, _, charsIn_null rest, rfl, by decide⟩
  | integer n =>
    obtain ⟨m, hm, -⟩ := exists_numeral_toString n
    rw [charsIn, textIn, ← hm]
    exact hnumeral m
  | number x =>
    cases x with
    | finite x =>
      obtain ⟨m, hm, -⟩ := exists_numeral_fullText x
      rw [charsIn, textIn, numberText, ← hm]
      exact hnumeral m
    | infinite negative =>
      rw [charsIn_infinite]
      cases negative <;> exact ⟨_, _, rfl, rfl, by decide⟩
  | string text => exact ⟨_, _, charsIn_string text rest, rfl, by decide⟩
  | array items => exact ⟨_, _, charsIn_array items rest, rfl, by decide⟩
  | object fields => exact ⟨_, _, charsIn_object fields rest, rfl, by decide⟩

theorem beginsVisibly_charsIn (charset : Charset) (value : Json) (rest : List Char) :
    BeginsVisibly (charsIn charset value ++ rest) := by
  obtain ⟨c, more, hmore, hc, -⟩ := exists_charsIn_eq_cons charset value rest
  rw [hmore]
  exact beginsVisibly_cons hc more

/-- Reading the text of the value leads to the value, up to where printing ended. -/
def ReadsOnlyAs (charset : Charset) (value : Json) : Prop :=
  ∀ (d : Datum) (rest rest' : List Char), Value (charsIn charset value ++ rest') d rest →
    (∀ c ∈ rest.head?, Numeral.isNumeric c = false) →
      (∀ c ∈ rest'.head?, Numeral.isNumeric c = false) → value.datum? = some d ∧ rest = rest'

variable {pad rest' : List Char} {value : Json}

/-- With blanks before, what follows the value tells where it ends. -/
theorem ReadsOnlyAs.of_element (ih : ReadsOnlyAs charset value)
    (hpad : ∀ c ∈ pad, isBlank c = true)
    (h : Element (pad ++ (charsIn charset value ++ rest')) d rest) (hrest : Separated rest)
    (hrest' : Separated rest') : value.datum? = some d ∧ rest = rest' := by
  obtain ⟨before, hvalue, run, hrun, rfl⟩ := h
  obtain rfl := Blanks.unique before ⟨pad, hpad, rfl⟩ hvalue.beginsVisibly
    (beginsVisibly_charsIn charset value rest')
  have hend : ∀ c ∈ (run ++ rest).head?, Numeral.isNumeric c = false := by
    cases run with
    | nil => exact fun c hc => (hrest c hc).1
    | cons b run =>
      rintro c ⟨⟩
      exact isNumeric_eq_false_of_isBlank (hrun b List.mem_cons_self)
  obtain ⟨hdatum, heq⟩ := ih _ _ _ hvalue hend fun c hc => (hrest' c hc).1
  have hblanks : Blanks rest' rest := ⟨run, hrun, heq.symm⟩
  exact ⟨hdatum, Blanks.unique hblanks (.refl rest') (fun c hc => (hrest c hc).2)
    fun c hc => (hrest' c hc).2⟩

/-- A printed field can be read in one way only if its value can. -/
theorem ReadsOnlyAs.of_member (ih : ReadsOnlyAs charset value) (name : String) {units : List Nat}
    (hpad : ∀ c ∈ pad, isBlank c = true)
    (h : Member (pad ++ (memberChars charset name value ++ rest')) units d rest)
    (hrest : Separated rest) (hrest' : Separated rest') :
    units = Text.utf16 name.toList ∧ value.datum? = some d ∧ rest = rest' := by
  rw [memberChars_append] at h
  obtain ⟨before, hunits, behind, hvalue⟩ := h
  have hquotation := Blanks.unique before ⟨pad, hpad, rfl⟩ (beginsVisibly_cons rfl _)
    (beginsVisibly_cons rfl _)
  obtain rfl := (List.cons.inj hquotation).2
  obtain ⟨rfl, rfl⟩ := hunits.unique (chars_flatMap_escape charset name.toList _)
  have hcolon := behind.eq_of_cons rfl rfl
  obtain rfl := (List.cons.inj hcolon).2
  have hspace : ∀ c ∈ [' '], isBlank c = true := by simp [isBlank]
  exact ⟨rfl, ih.of_element hspace hvalue hrest hrest'⟩

/-- An array with items does not end at once. -/
theorem not_blanks_itemChars {item : Json} {more : List Json} :
    ¬ Blanks (itemChars charset (item :: more) ++ chars) (']' :: rest) := by
  obtain ⟨behind, hbehind⟩ :
      ∃ behind, itemChars charset (item :: more) ++ chars = charsIn charset item ++ behind := by
    cases more with
    | nil => exact ⟨chars, by rw [itemChars_singleton]⟩
    | cons next more => exact ⟨_, by rw [itemChars_cons_cons, List.append_assoc]⟩
  intro h
  obtain ⟨c, tail, heq, hc, hne⟩ := exists_charsIn_eq_cons charset item behind
  rw [hbehind, heq] at h
  exact hne (List.cons.inj (h.eq_of_cons hc rfl)).1.symm

/-- An object with members does not end at once. -/
theorem not_blanks_fieldChars {field : String × Json} {more : List (String × Json)} :
    ¬ Blanks (fieldChars charset (field :: more) ++ chars) ('\x7d' :: rest) := by
  obtain ⟨behind, hbehind⟩ :
      ∃ behind, fieldChars charset (field :: more) ++ chars = '"' :: behind := by
    obtain ⟨name, value⟩ := field
    cases more with
    | nil => exact ⟨_, by rw [fieldChars_singleton, memberChars_append]⟩
    | cons next more =>
      exact ⟨_, by rw [fieldChars_cons_cons, List.append_assoc, memberChars_append]⟩
  intro h
  rw [hbehind] at h
  have hclosed := h.eq_of_cons rfl rfl
  cases hclosed

/-- A printed numeral can be read in one way only. -/
theorem readsOnlyAs_of_text {m : Numeral} (htext : m.text = charsIn charset value)
    (hdatum : value.datum? = some m.datum) : ReadsOnlyAs charset value := by
  intro d rest rest' h hrest hrest'
  obtain ⟨c, more, hmore, -⟩ := m.exists_text_eq_cons
  have hnumeric := m.forall_isNumeric c (hmore ▸ List.mem_cons_self)
  rw [← htext, hmore, List.cons_append] at h
  obtain ⟨n, hn, rfl⟩ := h.of_isNumeric hnumeric
  rw [← List.cons_append, ← hmore] at hn
  obtain ⟨rfl, rfl⟩ := Numeral.eq_of_text_append_eq hrest hrest' hn
  exact ⟨hdatum, rfl⟩

theorem readsOnlyAs_integer (n : Int) : ReadsOnlyAs charset (.integer n) := by
  obtain ⟨m, htext, hinteger⟩ := exists_numeral_toString n
  have hdatum : m.datum = .integer n := by rw [Numeral.datum, hinteger]
  refine readsOnlyAs_of_text (m := m) ?_ (by rw [hdatum, datum?])
  rw [charsIn, textIn, htext]

theorem readsOnlyAs_finite (x : Number) : ReadsOnlyAs charset (.number (.finite x)) := by
  obtain ⟨m, htext, hinteger, hnumber⟩ := exists_numeral_fullText x
  have hdatum : m.datum = .number (.finite x) := by rw [Numeral.datum, hinteger, hnumber]
  refine readsOnlyAs_of_text (m := m) ?_ (by rw [hdatum, datum?])
  rw [charsIn, textIn, numberText, htext]

theorem readsOnlyAs_string (text : String) : ReadsOnlyAs charset (.string text) := by
  intro d rest rest' h _ _
  rw [charsIn_string] at h
  obtain ⟨units, hunits, rfl⟩ := h.of_quotationMark
  obtain ⟨rfl, rfl⟩ := hunits.unique (chars_flatMap_escape charset text.toList rest')
  exact ⟨rfl, rfl⟩

mutual

/-- **What is printed can be read in one way only**: as the value if its numbers are finite, and
else not at all. -/
theorem readsOnlyAs (charset : Charset) : (value : Json) → ReadsOnlyAs charset value
  | .null => by
    intro d rest rest' h _ _
    rw [charsIn_null] at h
    obtain ⟨hrest, rfl⟩ := h.of_null
    cases hrest
    exact ⟨rfl, rfl⟩
  | .integer n => readsOnlyAs_integer n
  | .number (.finite x) => readsOnlyAs_finite x
  | .number (.infinite negative) => fun _ _ _ h _ _ =>
    absurd h (Value.not_infinity negative)
  | .string text => readsOnlyAs_string text
  | .array [] => by
    intro d rest rest' h _ _
    rw [charsIn_array] at h
    obtain ⟨hblanks, rfl⟩ | ⟨items, hitems, -⟩ := h.of_bracket
    · have heq := hblanks.eq_of_cons rfl rfl
      cases heq
      exact ⟨rfl, rfl⟩
    · exact absurd hitems Items.not_closed
  | .array (item :: more) => by
    intro d rest rest' h _ _
    rw [charsIn_array] at h
    obtain ⟨hblanks, -⟩ | ⟨items, hitems, rfl⟩ := h.of_bracket
    · exact absurd hblanks not_blanks_itemChars
    · obtain ⟨hdata, rfl⟩ := itemData?_of_items charset (item :: more) (List.cons_ne_nil _ _)
        [] _ _ _ (List.forall_mem_nil _) hitems
      exact ⟨by rw [datum?, hdata, Option.map_some], rfl⟩
  | .object [] => by
    intro d rest rest' h _ _
    rw [charsIn_object] at h
    obtain ⟨hblanks, rfl⟩ | ⟨members, hmembers, -⟩ := h.of_brace
    · have heq := hblanks.eq_of_cons rfl rfl
      cases heq
      exact ⟨rfl, rfl⟩
    · exact absurd hmembers Members.not_closed
  | .object (field :: more) => by
    intro d rest rest' h _ _
    rw [charsIn_object] at h
    obtain ⟨hblanks, -⟩ | ⟨members, hmembers, rfl⟩ := h.of_brace
    · exact absurd hblanks not_blanks_fieldChars
    · obtain ⟨hdata, rfl⟩ := fieldData?_of_members charset (field :: more) (List.cons_ne_nil _ _)
        [] _ _ _ (List.forall_mem_nil _) hmembers
      exact ⟨by rw [datum?, hdata, Option.map_some], rfl⟩

/-- Printed items can be read in one way only. -/
theorem itemData?_of_items (charset : Charset) : (items : List Json) → items ≠ [] →
    (pad rest rest' : List Char) → (ds : List Datum) → (∀ c ∈ pad, isBlank c = true) →
      Items (pad ++ (itemChars charset items ++ ']' :: rest')) ds rest →
        itemData? items = some ds ∧ rest = rest'
  | [], hne => absurd rfl hne
  | [item], _ => by
    intro pad rest rest' ds hpad h
    rw [itemChars_singleton] at h
    cases h with
    | last element =>
      obtain ⟨hdatum, heq⟩ := (readsOnlyAs charset item).of_element hpad element
        (separated_sign (by decide) rest) (separated_sign (by decide) rest')
      cases heq
      exact ⟨itemData?_cons hdatum rfl, rfl⟩
    | cons element more =>
      obtain ⟨-, heq⟩ := (readsOnlyAs charset item).of_element hpad element
        (separated_sign (by decide) _) (separated_sign (by decide) rest')
      cases heq
  | item :: next :: more, _ => by
    intro pad rest rest' ds hpad h
    rw [itemChars_cons_cons, List.append_assoc] at h
    cases h with
    | last element =>
      obtain ⟨-, heq⟩ := (readsOnlyAs charset item).of_element hpad element
        (separated_sign (by decide) rest) (separated_sign (by decide) _)
      cases heq
    | cons element others =>
      obtain ⟨hdatum, heq⟩ := (readsOnlyAs charset item).of_element hpad element
        (separated_sign (by decide) _) (separated_sign (by decide) _)
      obtain rfl := (List.cons.inj heq).2
      obtain ⟨hdata, rfl⟩ := itemData?_of_items charset (next :: more) (List.cons_ne_nil _ _)
        [' '] _ _ _ (by simp [isBlank]) others
      exact ⟨itemData?_cons hdatum hdata, rfl⟩

/-- Printed fields can be read in one way only. -/
theorem fieldData?_of_members (charset : Charset) : (fields : List (String × Json)) →
    fields ≠ [] → (pad rest rest' : List Char) → (ds : List (List Nat × Datum)) →
      (∀ c ∈ pad, isBlank c = true) →
        Members (pad ++ (fieldChars charset fields ++ '\x7d' :: rest')) ds rest →
          fieldData? fields = some ds ∧ rest = rest'
  | [], hne => absurd rfl hne
  | [(name, value)], _ => by
    intro pad rest rest' ds hpad h
    rw [fieldChars_singleton] at h
    cases h with
    | last member =>
      obtain ⟨rfl, hdatum, heq⟩ := (readsOnlyAs charset value).of_member name hpad member
        (separated_sign (by decide) rest) (separated_sign (by decide) rest')
      cases heq
      exact ⟨fieldData?_cons name hdatum rfl, rfl⟩
    | cons member others =>
      obtain ⟨-, -, heq⟩ := (readsOnlyAs charset value).of_member name hpad member
        (separated_sign (by decide) _) (separated_sign (by decide) rest')
      cases heq
  | (name, value) :: next :: more, _ => by
    intro pad rest rest' ds hpad h
    rw [fieldChars_cons_cons, List.append_assoc] at h
    cases h with
    | last member =>
      obtain ⟨-, -, heq⟩ := (readsOnlyAs charset value).of_member name hpad member
        (separated_sign (by decide) rest) (separated_sign (by decide) _)
      cases heq
    | cons member others =>
      obtain ⟨rfl, hdatum, heq⟩ := (readsOnlyAs charset value).of_member name hpad member
        (separated_sign (by decide) _) (separated_sign (by decide) _)
      obtain rfl := (List.cons.inj heq).2
      obtain ⟨hdata, rfl⟩ := fieldData?_of_members charset (next :: more) (List.cons_ne_nil _ _)
        [' '] _ _ _ (by simp [isBlank]) others
      exact ⟨fieldData?_cons name hdatum hdata, rfl⟩

end

/-- **What the text of a value denotes.** It denotes the value and nothing else, and it is no JSON
text if the value has an infinite number in it. -/
theorem denotes_textIn_iff (charset : Charset) (value : Json) (d : Datum) :
    Denotes (value.textIn charset) d ↔ value.datum? = some d := by
  constructor
  · intro h
    have hchars : Element ([] ++ (charsIn charset value ++ [])) d [] := by
      rw [List.nil_append, List.append_nil]
      exact h
    exact ((readsOnlyAs charset value).of_element (List.forall_mem_nil _) hchars separated_nil
      separated_nil).1
  · intro h
    have hvalue := value_textIn charset value h []
    rw [List.append_nil] at hvalue
    exact hvalue.element

/-! ### Printing stays on a line -/

/-- There is no control character below the space, in particular no line end. -/
def OnLine (chars : List Char) : Prop := ∀ c ∈ chars, 0x20 ≤ c.toNat

theorem onLine_nil : OnLine [] := nofun

theorem onLine_cons {a : List Char} : OnLine (c :: a) ↔ 0x20 ≤ c.toNat ∧ OnLine a :=
  List.forall_mem_cons

theorem onLine_append {a b : List Char} : OnLine (a ++ b) ↔ OnLine a ∧ OnLine b :=
  List.forall_mem_append

theorem Numeral.onLine_text (n : Numeral) : OnLine n.text := by
  intro c hc
  have hsigns : ∀ c ∈ ['-', '+', '.', 'e', 'E'], 0x20 ≤ c.toNat := by simp
  have hnumeric := n.forall_isNumeric c hc
  simp only [isNumeric, Bool.or_eq_true, decide_eq_true_eq] at hnumeric
  rcases hnumeric with hdigit | hsign
  · exact Nat.le_trans (by decide) (Char.isDigit_iff_toNat.mp hdigit).1
  · exact hsigns c hsign

theorem onLine_escaped (text : String) : OnLine (text.toList.flatMap (escape charset)) := by
  intro c hc
  obtain ⟨d, -, hd⟩ := List.mem_flatMap.mp hc
  exact space_le_of_mem_escape hd

theorem onLine_memberChars (name : String) (h : OnLine (charsIn charset value)) :
    OnLine (memberChars charset name value) := by
  simp [memberChars, onLine_cons, onLine_append, onLine_escaped, h]

mutual

/-- **What is printed stays on a line.** -/
theorem onLine_charsIn (charset : Charset) : (value : Json) → OnLine (charsIn charset value)
  | .null => by
    rw [← List.append_nil (charsIn charset .null), charsIn_null]
    simp [OnLine]
  | .integer n => by
    obtain ⟨m, hm, -⟩ := exists_numeral_toString n
    rw [charsIn, textIn, ← hm]
    exact m.onLine_text
  | .number (.finite x) => by
    obtain ⟨m, hm, -⟩ := exists_numeral_fullText x
    rw [charsIn, textIn, numberText, ← hm]
    exact m.onLine_text
  | .number (.infinite negative) => by
    rw [← List.append_nil (charsIn charset _), charsIn_infinite]
    cases negative <;> simp [OnLine]
  | .string text => by
    rw [← List.append_nil (charsIn charset _), charsIn_string]
    simp [onLine_cons, onLine_append, onLine_escaped, onLine_nil]
  | .array items => by
    have hitems := onLine_itemChars charset items
    rw [← List.append_nil (charsIn charset _), charsIn_array]
    simp [onLine_cons, onLine_append, hitems, onLine_nil]
  | .object fields => by
    have hfields := onLine_fieldChars charset fields
    rw [← List.append_nil (charsIn charset _), charsIn_object]
    simp [onLine_cons, onLine_append, hfields, onLine_nil]

theorem onLine_itemChars (charset : Charset) : (items : List Json) →
    OnLine (itemChars charset items)
  | [] => nofun
  | [item] => by
    rw [itemChars_singleton]
    exact onLine_charsIn charset item
  | item :: next :: more => by
    have hitem := onLine_charsIn charset item
    have hmore := onLine_itemChars charset (next :: more)
    rw [itemChars_cons_cons]
    simp [onLine_cons, onLine_append, hitem, hmore]

theorem onLine_fieldChars (charset : Charset) : (fields : List (String × Json)) →
    OnLine (fieldChars charset fields)
  | [] => nofun
  | [(name, value)] => by
    rw [fieldChars_singleton]
    exact onLine_memberChars name (onLine_charsIn charset value)
  | (name, value) :: next :: more => by
    have hfield := onLine_memberChars name (onLine_charsIn charset value)
    have hmore := onLine_fieldChars charset (next :: more)
    rw [fieldChars_cons_cons]
    simp [onLine_cons, onLine_append, hfield, hmore]

end

end Json

end SchoolAlgebra
