import SchoolAlgebra.Proofs.Token.Words

/-!
# The longest word at a place

What is found at a place of a text is a numeral, a name or a sign. A numeral or a name is the
longest one that begins there: no longer stretch of the text from there on is one. And of every
character it can be told whether it belongs to a word, from itself and the character behind it.

## Main definitions

* `Lexeme.IsNumeral` — digits, with a point before the last of them or without
* `Lexeme.ReadableAt` — the character at an offset belongs to a word
* `Lexeme.asciiGlyph` — the ASCII spelling of a character

## Main results

* `Lexeme.length_le_of_isNumeral`, `Lexeme.length_le_of_isName` — nothing longer is one
* `Lexeme.longest?_eq_some_cases` — what is found
* `Lexeme.toList_text_of_longest?` — it is spelled as it stands in the text
* `Lexeme.readableAt_of_longest?` — all of it can be told to be part of a word
* `Lexeme.not_readableAt_zero` — where nothing is found, no word could be
-/

namespace SchoolAlgebra

namespace Lexeme

variable {chars word rest : List Char} {l : Lexeme} {length : Nat}

/-! ### Numerals

A numeral takes all digits, then a point if a digit stands behind it, then all digits again. Any
other beginning of the text that is a numeral is made of beginnings of these parts, and so it is no
longer. -/

/-- Digits, or a point with digits behind it and perhaps before it. -/
inductive IsNumeral : List Char → Prop where
  | whole {digits : List Char} (hne : digits ≠ []) (hdigits : ∀ c ∈ digits, c.isDigit = true) :
    IsNumeral digits
  | point {digits fraction : List Char} (hdigits : ∀ c ∈ digits, c.isDigit = true)
    (hne : fraction ≠ []) (hfraction : ∀ c ∈ fraction, c.isDigit = true) :
    IsNumeral (digits ++ '.' :: fraction)

/-- The part behind the digits is a point with digits, or nothing. -/
theorem pointPart_cases (rest : List Char) :
    pointPart rest = [] ∨ ∃ fraction, fraction ≠ [] ∧ (∀ c ∈ fraction, c.isDigit = true) ∧
      pointPart rest = '.' :: fraction := by
  unfold pointPart
  split
  · split
    · exact .inl rfl
    · next rest _ hne =>
      exact .inr ⟨_, hne, fun c hc => List.mem_takeWhile_imp hc, rfl⟩
  · exact .inl rfl

theorem isNumeral_numeralPart (h : numeralPart chars ≠ []) : IsNumeral (numeralPart chars) := by
  have hdigits : ∀ c ∈ chars.takeWhile Char.isDigit, c.isDigit = true :=
    fun c hc => List.mem_takeWhile_imp hc
  rw [numeralPart_eq_append] at h ⊢
  rcases pointPart_cases (chars.dropWhile Char.isDigit) with hnil | ⟨fraction, hne, hfraction, heq⟩
  · rw [hnil, List.append_nil] at h ⊢
    exact .whole h hdigits
  · rw [heq]
    exact .point hdigits hne hfraction

theorem prefix_pointPart (rest : List Char) : pointPart rest <+: rest := by
  unfold pointPart
  split
  · next rest =>
    split
    · exact List.nil_prefix
    · exact List.cons_prefix_cons.mpr ⟨rfl, List.takeWhile_prefix _⟩
  · exact List.nil_prefix

theorem prefix_numeralPart (chars : List Char) : numeralPart chars <+: chars := by
  rw [numeralPart_eq_append]
  conv_rhs => rw [← List.takeWhile_append_dropWhile (p := Char.isDigit) (l := chars)]
  exact (List.prefix_append_right_inj _).mpr (prefix_pointPart _)

/-- **No longer beginning of a text is a numeral.** -/
theorem length_le_of_isNumeral (h : IsNumeral word) (hbegins : word <+: chars) :
    word.length ≤ (numeralPart chars).length := by
  obtain ⟨rest, rfl⟩ := hbegins
  rw [numeralPart_eq_append]
  cases h with
  | whole hne hdigits =>
    rw [List.takeWhile_append_of_pos hdigits, List.append_assoc]
    exact (List.prefix_append _ _).length_le
  | @point digits fraction hdigits hne hfraction =>
    have hpoint : ∀ c, ('.' :: (fraction ++ rest)).head? = some c → c.isDigit = false := by
      rintro c hc
      cases hc
      rfl
    have htail : (fraction ++ rest).takeWhile Char.isDigit =
        fraction ++ rest.takeWhile Char.isDigit := List.takeWhile_append_of_pos hfraction
    rw [List.append_assoc, List.cons_append, takeWhile_append_of_head? hdigits hpoint,
      dropWhile_append_of_head? hdigits hpoint,
      pointPart_point (htail.trans_ne (List.append_ne_nil_of_left_ne_nil hne _)), htail,
      ← List.cons_append, ← List.append_assoc]
    exact (List.prefix_append _ _).length_le

/-! ### Names -/

theorem prefix_namePart (chars : List Char) : namePart chars <+: chars := by
  rw [namePart]
  split
  · exact List.nil_prefix
  · conv_rhs => rw [← List.takeWhile_append_dropWhile (p := Char.isAlpha) (l := chars)]
    exact (List.prefix_append_right_inj _).mpr (List.takeWhile_prefix _)

/-- **No longer beginning of a text is a name.** -/
theorem length_le_of_isName (h : IsName word) (hbegins : word <+: chars) :
    word.length ≤ (namePart chars).length := by
  obtain ⟨rest, rfl⟩ := hbegins
  obtain ⟨letters, digits, hne, hletters, hdigits, rfl⟩ := h
  rw [List.append_assoc]
  cases digits with
  | nil =>
    have htake : (letters ++ rest).takeWhile Char.isAlpha =
        letters ++ rest.takeWhile Char.isAlpha := List.takeWhile_append_of_pos hletters
    rw [List.nil_append, List.append_nil,
      namePart_eq_append (htake.trans_ne (List.append_ne_nil_of_left_ne_nil hne _)), htake,
      List.append_assoc]
    exact (List.prefix_append _ _).length_le
  | cons d digits =>
    have hnoAlpha : ∀ c, (d :: digits ++ rest).head? = some c → c.isAlpha = false := by
      rintro c hc
      cases hc
      exact isAlpha_eq_false_of_isDigit (hdigits _ List.mem_cons_self)
    have htake := takeWhile_append_of_head? hletters hnoAlpha
    rw [namePart_eq_append (htake.trans_ne hne), htake, dropWhile_append_of_head? hletters hnoAlpha,
      List.takeWhile_append_of_pos hdigits, ← List.append_assoc]
    exact (List.prefix_append _ _).length_le

/-! ### What is found

Numerals come first, since no name begins with a digit or a point. What is neither a numeral nor a
name is a single character, and which ones are words is read off a list. -/

/-- The lexeme that is found is a numeral, a name or a sign. -/
theorem longest?_eq_some_cases (h : longest? chars = some (l, length)) :
    (numeralPart chars ≠ [] ∧ (∃ value, l = .number (String.ofList (numeralPart chars)) value) ∧
      length = (numeralPart chars).length) ∨
    (namePart chars ≠ [] ∧ l = .name (String.ofList (namePart chars)) ∧
      length = (namePart chars).length) ∨
    ∃ c rest, chars = c :: rest ∧ ofChar? c = some l ∧ length = 1 := by
  obtain ⟨hne, heq⟩ | ⟨-, hne, heq⟩ | ⟨-, -, heq⟩ := longest?_cases chars
  · cases heq.symm.trans h
    exact .inl ⟨hne, ⟨_, rfl⟩, rfl⟩
  · cases heq.symm.trans h
    exact .inr (.inl ⟨hne, rfl, rfl⟩)
  · obtain ⟨found, hfound, hpair⟩ := Option.map_eq_some_iff.mp (heq.symm.trans h)
    cases hpair
    cases chars with
    | nil => cases hfound
    | cons c rest => exact .inr (.inr ⟨c, rest, rfl, hfound, rfl⟩)

/-- The characters that are a word each. -/
def signs : List Char := ['+', '-', '*', '/', '^', '(', ')', '×', '·', '÷']

/-- The ASCII spelling of a character. -/
def asciiGlyph : Char → Char
  | '×' | '·' => '*'
  | '÷' => '/'
  | c => c

theorem isSome_ofChar? {c : Char} (h : c ∈ signs) : (ofChar? c).isSome = true := by
  simp only [signs, List.mem_cons, List.not_mem_nil, or_false] at h
  rcases h with rfl | rfl | rfl | rfl | rfl | rfl | rfl | rfl | rfl | rfl <;> rfl

/-- A single character that is a word is a sign. -/
theorem of_ofChar?_eq_some {c : Char} (h : ofChar? c = some l) :
    c ∈ signs ∧ l.text.toList = [asciiGlyph c] := by
  unfold ofChar? at h
  split at h
  case h_4 =>
    obtain ⟨op, hop, rfl⟩ := Option.map_eq_some_iff.mp h
    unfold Operator.ofChar? at hop
    split at hop <;> cases hop <;> exact ⟨by decide, rfl⟩
  all_goals
    cases h
    exact ⟨by decide, rfl⟩

/-! ### Spelling -/

/-- Numerals and names are ASCII. -/
theorem map_asciiGlyph (h : ∀ c ∈ word, c.isDigit = true ∨ c.isAlpha = true ∨ c = '.') :
    word.map asciiGlyph = word := by
  have hself : ∀ c ∈ word, asciiGlyph c = id c := by
    intro c hc
    have hc := h c hc
    unfold asciiGlyph
    split <;> first | rfl | exact absurd hc (by decide)
  rw [List.map_congr_left hself, List.map_id]

theorem IsNumeral.forall_mem (h : IsNumeral word) :
    ∀ c ∈ word, c.isDigit = true ∨ c.isAlpha = true ∨ c = '.' := by
  intro c hc
  cases h with
  | whole hne hdigits => exact .inl (hdigits c hc)
  | point hdigits hne hfraction =>
    rcases List.mem_append.mp hc with hc | hc
    · exact .inl (hdigits c hc)
    · rcases List.mem_cons.mp hc with rfl | hc
      · exact .inr (.inr rfl)
      · exact .inl (hfraction c hc)

theorem forall_mem_of_isName (h : IsName word) :
    ∀ c ∈ word, c.isDigit = true ∨ c.isAlpha = true := by
  intro c hc
  obtain ⟨letters, digits, -, hletters, hdigits, rfl⟩ := h
  exact (List.mem_append.mp hc).symm.imp (hdigits c) (hletters c)

/-- **What is found is spelled as it stands in the text.** -/
theorem toList_text_of_longest? (h : longest? chars = some (l, length)) :
    l.text.toList = (chars.take length).map asciiGlyph := by
  obtain ⟨hne, ⟨value, rfl⟩, rfl⟩ | ⟨hne, rfl, rfl⟩ | ⟨c, rest, rfl, hc, rfl⟩ :=
    longest?_eq_some_cases h
  · rw [← List.prefix_iff_eq_take.mp (prefix_numeralPart chars),
      map_asciiGlyph (isNumeral_numeralPart hne).forall_mem]
    exact String.toList_ofList
  · have hclass := forall_mem_of_isName (isName_namePart hne)
    rw [← List.prefix_iff_eq_take.mp (prefix_namePart chars),
      map_asciiGlyph fun c hc => (hclass c hc).imp_right .inl]
    exact String.toList_ofList
  · exact (of_ofChar?_eq_some hc).2

/-- A numeral that is found is one, and nothing longer is. -/
theorem isNumeral_of_longest? (h : longest? chars = some (l, length)) (hl : l.isNumber = true) :
    IsNumeral l.text.toList ∧ ∀ word, IsNumeral word → word <+: chars → word.length ≤ length := by
  obtain ⟨hne, ⟨value, rfl⟩, rfl⟩ | ⟨-, rfl, -⟩ | ⟨c, -, -, hc, -⟩ := longest?_eq_some_cases h
  · refine ⟨?_, fun word => length_le_of_isNumeral⟩
    rw [text, String.toList_ofList]
    exact isNumeral_numeralPart hne
  · cases hl
  · cases (ne_number_of_ofChar? hc).1.symm.trans hl

/-- A name that is found is one, and nothing longer is. -/
theorem isName_and_length_le_of_longest? {name : String}
    (h : longest? chars = some (.name name, length)) :
    IsName name.toList ∧ ∀ word, IsName word → word <+: chars → word.length ≤ length := by
  refine ⟨isName_of_longest? h, ?_⟩
  obtain ⟨-, ⟨value, hl⟩, -⟩ | ⟨-, -, rfl⟩ | ⟨c, -, -, hc, -⟩ := longest?_eq_some_cases h
  · cases hl
  · exact fun word => length_le_of_isName
  · exact absurd rfl ((ne_number_of_ofChar? hc).2 name)

/-! ### Which characters belong to a word

One character depends on its neighbour: a point belongs to a word only if a digit stands behind it.
So the statement is about an offset in a text and not about a character. -/

/-- The character at an offset can be told to belong to a word: it is a digit, a letter or a sign,
or a point with a digit behind it. -/
def ReadableAt (chars : List Char) (i : Nat) : Prop :=
  ∃ c, chars[i]? = some c ∧ (c.isDigit = true ∨ c.isAlpha = true ∨ c ∈ signs ∨
    c = '.' ∧ ∃ d, chars[i + 1]? = some d ∧ d.isDigit = true)

theorem readableAt_drop (chars : List Char) (k i : Nat) :
    ReadableAt (chars.drop k) i ↔ ReadableAt chars (k + i) := by
  rw [ReadableAt, ReadableAt, List.getElem?_drop, List.getElem?_drop, Nat.add_assoc]

theorem getElem?_of_beginning {i : Nat} {c : Char} (hbegins : word <+: chars)
    (h : word[i]? = some c) : chars[i]? = some c := by
  obtain ⟨rest, rfl⟩ := hbegins
  rw [List.getElem?_append_left (List.getElem?_eq_some_iff.mp h).1, h]

/-- Text behind a word takes nothing away. -/
theorem ReadableAt.of_beginning {i : Nat} (hbegins : word <+: chars) (h : ReadableAt word i) :
    ReadableAt chars i := by
  obtain ⟨c, hc, hclass⟩ := h
  refine ⟨c, getElem?_of_beginning hbegins hc, ?_⟩
  obtain hdigit | halpha | hsign | ⟨rfl, d, hd, hdigit⟩ := hclass
  · exact .inl hdigit
  · exact .inr (.inl halpha)
  · exact .inr (.inr (.inl hsign))
  · exact .inr (.inr (.inr ⟨rfl, d, getElem?_of_beginning hbegins hd, hdigit⟩))

theorem readableAt_of_isNumeral {i : Nat} (h : IsNumeral word) (hi : i < word.length) :
    ReadableAt word i := by
  cases h with
  | whole hne hdigits =>
    exact ⟨_, List.getElem?_eq_getElem hi, .inl (hdigits _ (List.getElem_mem hi))⟩
  | @point digits fraction hdigits hne hfraction =>
    rw [List.length_append, List.length_cons] at hi
    rcases Nat.lt_trichotomy i digits.length with hlt | rfl | hgt
    · refine ⟨digits[i], ?_, .inl (hdigits _ (List.getElem_mem hlt))⟩
      rw [List.getElem?_append_left hlt, List.getElem?_eq_getElem hlt]
    · obtain ⟨d, fraction, rfl⟩ := List.exists_cons_of_ne_nil hne
      refine ⟨'.', by simp, .inr (.inr (.inr ⟨rfl, d, ?_, hfraction d List.mem_cons_self⟩))⟩
      simp
    · obtain ⟨j, rfl⟩ := Nat.exists_eq_add_of_lt hgt
      have hj : j < fraction.length := by omega
      refine ⟨fraction[j], ?_, .inl (hfraction _ (List.getElem_mem hj))⟩
      rw [Nat.add_assoc, List.getElem?_append_right (Nat.le_add_right _ _), Nat.add_sub_cancel_left,
        List.getElem?_cons_succ, List.getElem?_eq_getElem hj]

theorem readableAt_of_isName {i : Nat} (h : IsName word) (hi : i < word.length) :
    ReadableAt word i := by
  have hclass := forall_mem_of_isName h _ (List.getElem_mem hi)
  exact ⟨_, List.getElem?_eq_getElem hi, hclass.imp_right .inl⟩

/-- **Every character of what is found can be told to belong to a word.** -/
theorem readableAt_of_longest? {i : Nat} (h : longest? chars = some (l, length))
    (hi : i < length) : ReadableAt chars i := by
  obtain ⟨hne, -, rfl⟩ | ⟨hne, -, rfl⟩ | ⟨c, rest, rfl, hc, rfl⟩ := longest?_eq_some_cases h
  · have hreadable := readableAt_of_isNumeral (isNumeral_numeralPart hne) hi
    exact hreadable.of_beginning (prefix_numeralPart chars)
  · have hreadable := readableAt_of_isName (isName_namePart hne) hi
    exact hreadable.of_beginning (prefix_namePart chars)
  · obtain rfl : i = 0 := Nat.lt_one_iff.mp hi
    exact ⟨c, rfl, .inr (.inr (.inl (of_ofChar?_eq_some hc).1))⟩

/-- **Where nothing is found, the character belongs to no word.** -/
theorem not_readableAt_zero (h : longest? chars = none) : ¬ ReadableAt chars 0 := by
  obtain ⟨-, heq⟩ | ⟨-, -, heq⟩ | ⟨hnumeral, hname, heq⟩ := longest?_cases chars
  · cases heq.symm.trans h
  · cases heq.symm.trans h
  have hnoNumeral : ∀ word, IsNumeral word → word <+: chars → word.length ≤ 0 := by
    intro word hword hbegins
    simpa [hnumeral] using length_le_of_isNumeral hword hbegins
  have hnoName : ∀ word, IsName word → word <+: chars → word.length ≤ 0 := by
    intro word hword hbegins
    simpa [hname] using length_le_of_isName hword hbegins
  rintro ⟨c, hc, hclass⟩
  obtain ⟨rest, rfl⟩ := List.head?_eq_some_iff.mp (List.head?_eq_getElem? ▸ hc)
  have hone : [c] <+: c :: rest := List.prefix_append [c] rest
  obtain hdigit | halpha | hsign | ⟨rfl, d, hd, hdigit⟩ := hclass
  · have hword : IsNumeral [c] := .whole (List.cons_ne_nil _ _) (by simpa using hdigit)
    exact absurd (hnoNumeral _ hword hone) (Nat.not_succ_le_zero 0)
  · have hword : IsName [c] := ⟨[c], [], List.cons_ne_nil _ _, by simpa using halpha, nofun, rfl⟩
    exact absurd (hnoName _ hword hone) (Nat.not_succ_le_zero 0)
  · have hnone : (ofChar? c).map (·, 1) = none := heq.symm.trans h
    have hsome := isSome_ofChar? hsign
    rw [Option.map_eq_none_iff.mp hnone] at hsome
    cases hsome
  · obtain ⟨rest, rfl⟩ := List.head?_eq_some_iff.mp (List.head?_eq_getElem? ▸ hd)
    have hword : IsNumeral ([] ++ '.' :: [d]) :=
      .point nofun (List.cons_ne_nil _ _) (by simpa using hdigit)
    have htwo : ['.', d] <+: '.' :: d :: rest := List.prefix_append ['.', d] rest
    exact absurd (hnoNumeral _ hword htwo) (Nat.not_succ_le_zero 1)

end Lexeme

end SchoolAlgebra
