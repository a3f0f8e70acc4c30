import SchoolAlgebra.Proofs.ForMathlib.List
import SchoolAlgebra.Proofs.Token.Words

/-!
# The order of the tokens

Tokens stand one behind the other: each begins no sooner than the one before it ends, and all of
them lie in the text. Only the end of the source and an implied multiplication take no room. An
implied multiplication has fixed neighbours, a numeral before it and a name behind it, and all
three meet at one offset.

Spans count from the start of the source, so scanning is looked at from there: `Token.scanAt` is
what is found from an offset on, with the whole text in view.

## Main definitions

* `Token.scanAt` — the tokens of a text from an offset on
* `Token.Laid` — tokens one behind the other between two offsets

## Main results

* `Token.scanAt_induction` — induction along the words of one text
* `Token.laid_scan` — the tokens of a source are laid between its ends
* `Token.exists_neighbours` — what stands next to an implied multiplication
-/

namespace SchoolAlgebra

namespace Token

open Lexeme

theorem isImplicitMultiply_iff {t : Token} :
    t.isImplicitMultiply = true ↔
      t.lexeme = .operator .multiply ∧ t.span.start = t.span.stop := by
  simp [isImplicitMultiply, Span.isEmpty]

theorem isImplicitMultiply_of_ne {t : Token} (h : t.lexeme ≠ .operator .multiply) :
    t.isImplicitMultiply = false := by
  simp [isImplicitMultiply, h]

/-! ### Scanning from an offset

Scanning is defined on the text behind an offset, while spans and excerpts are about the whole text.
`scanAt` has both in view, and its induction goes from the end of the text to its start, in steps of
a word. -/

/-- The tokens of a text from an offset on. -/
def scanAt (text : List Char) (k : Nat) : List Token := scanFrom k 0 (text.drop k)

variable {text : List Char} {k length : Nat} {l : Lexeme}

@[simp] theorem scanAt_length (text : List Char) :
    scanAt text text.length = [⟨.finish, ⟨text.length, text.length⟩⟩] := by
  rw [scanAt, List.drop_length, scanFrom]

theorem scanAt_of_longest?_eq_none (h : longest? (text.drop k) = none) (hk : k < text.length) :
    scanAt text k = scanAt text (k + 1) := by
  rw [List.drop_eq_getElem_cons hk] at h
  rw [scanAt, List.drop_eq_getElem_cons hk, scanFrom_cons_of_longest?_eq_none h, scanAt]

/-- A word, what it implies, and the tokens behind it. -/
theorem scanAt_of_longest?_eq_some (h : longest? (text.drop k) = some (l, length)) :
    scanAt text k = ⟨l, ⟨k, k + length⟩⟩ ::
      (implied l (k + length) (text.drop (k + length)) ++ scanAt text (k + length)) := by
  rw [scanAt, scanFrom_of_longest?_eq_some h, ofLexeme_eq_cons, List.drop_drop, List.cons_append,
    scanAt]

theorem le_length_of_longest? (h : longest? (text.drop k) = some (l, length)) :
    0 < length ∧ k + length ≤ text.length := by
  obtain ⟨hpos, hle⟩ := length_of_longest? h
  rw [List.length_drop] at hle
  omega

/-- Induction along the words of one text, from its end to its start. -/
theorem scanAt_induction {text : List Char} {P : (k : Nat) → k ≤ text.length → Prop}
    (stop : P text.length (Nat.le_refl _))
    (skip : ∀ k (hk : k < text.length), longest? (text.drop k) = none → P (k + 1) hk →
      P k (Nat.le_of_lt hk))
    (word : ∀ k l length (hk : k + length ≤ text.length),
      longest? (text.drop k) = some (l, length) → P (k + length) hk →
        P k (Nat.le_of_add_right_le hk))
    (k : Nat) (hk : k ≤ text.length) : P k hk := by
  rcases Nat.lt_or_eq_of_le hk with hlt | rfl
  · cases h : longest? (text.drop k) with
    | none => exact skip k hlt h (scanAt_induction stop skip word (k + 1) hlt)
    | some found =>
      have hlength := le_length_of_longest? h
      exact word k _ _ hlength.2 h (scanAt_induction stop skip word (k + found.2) hlength.2)
  · exact stop
termination_by text.length - k

/-! ### Tokens one behind the other

`Laid` is stated for any two offsets, so that it can be divided at an offset between two tokens.
Tokens without room are allowed for, and they stand where the token before them ends. -/

/-- A token ends no sooner than it begins, and later unless it is implied or the end of the
source. -/
structure HasRoom (t : Token) : Prop where
  /-- The ends are in order. -/
  start_le_stop : t.span.start ≤ t.span.stop
  /-- What is written in the source takes room there. -/
  start_lt_stop : t.isImplicitMultiply = false → t.lexeme ≠ .finish → t.span.start < t.span.stop

/-- The tokens stand one behind the other between two offsets. -/
def Laid : (start : Nat) → List Token → (stop : Nat) → Prop
  | start, [], stop => start ≤ stop
  | start, t :: ts, stop => start ≤ t.span.start ∧ t.HasRoom ∧ Laid t.span.stop ts stop

variable {a b : Nat} {t : Token} {ts us : List Token}

theorem Laid.le (h : Laid a ts b) : a ≤ b := by
  induction ts generalizing a with
  | nil => exact h
  | cons t ts ih =>
    obtain ⟨hstart, hroom, hrest⟩ := h
    exact Nat.le_trans hstart (Nat.le_trans hroom.start_le_stop (ih hrest))

theorem Laid.of_le (h : Laid a ts b) {a' : Nat} (ha : a' ≤ a) : Laid a' ts b := by
  cases ts with
  | nil => exact Nat.le_trans ha h
  | cons t ts => exact ⟨Nat.le_trans ha h.1, h.2⟩

/-- Tokens are laid in two parts with an offset between them. -/
theorem laid_append : Laid a (ts ++ us) b ↔ ∃ c, Laid a ts c ∧ Laid c us b := by
  induction ts generalizing a with
  | nil => exact ⟨fun h => ⟨a, Nat.le_refl a, h⟩, fun ⟨c, hc, h⟩ => h.of_le hc⟩
  | cons t ts ih =>
    rw [List.cons_append, Laid, ih]
    exact ⟨fun ⟨hstart, hroom, c, hts, hus⟩ => ⟨c, ⟨hstart, hroom, hts⟩, hus⟩,
      fun ⟨c, ⟨hstart, hroom, hts⟩, hus⟩ => ⟨hstart, hroom, c, hts, hus⟩⟩

theorem Laid.of_mem (h : Laid a ts b) (ht : t ∈ ts) :
    a ≤ t.span.start ∧ t.HasRoom ∧ t.span.stop ≤ b := by
  obtain ⟨before, behind, rfl⟩ := List.append_of_mem ht
  obtain ⟨c, hbefore, hstart, hroom, hbehind⟩ := laid_append.mp h
  exact ⟨Nat.le_trans hbefore.le hstart, hroom, hbehind.le⟩

/-- Of two tokens the earlier one ends where the later one begins, or before. -/
theorem Laid.pairwise (h : Laid a ts b) :
    ts.Pairwise fun t u => t.span.stop ≤ u.span.start := by
  induction ts generalizing a with
  | nil => exact .nil
  | cons t ts ih => exact .cons (fun u hu => (h.2.2.of_mem hu).1) (ih h.2.2)

/-- A multiplication between a word and the text behind it takes no room. -/
theorem laid_implied_append {stop : Nat} {following : List Char} (h : Laid stop ts b) :
    Laid stop (implied l stop following ++ ts) b := by
  rw [implied]
  split
  · refine ⟨Nat.le_refl _, ⟨Nat.le_refl _, fun hne => ?_⟩, h⟩
    simp [isImplicitMultiply, Span.isEmpty] at hne
  · exact h

theorem laid_scanAt (text : List Char) (k : Nat) (hk : k ≤ text.length) :
    Laid k (scanAt text k) text.length := by
  induction k, hk using scanAt_induction with
  | stop =>
    rw [scanAt_length]
    exact ⟨Nat.le_refl _, ⟨Nat.le_refl _, fun _ hne => absurd rfl hne⟩, Nat.le_refl _⟩
  | skip k hlt hnone ih =>
    rw [scanAt_of_longest?_eq_none hnone hlt]
    exact ih.of_le (Nat.le_succ k)
  | word k l length hle hsome ih =>
    have hpos := (le_length_of_longest? hsome).1
    rw [scanAt_of_longest?_eq_some hsome]
    exact ⟨Nat.le_refl _, ⟨Nat.le_add_right .., fun _ _ => Nat.lt_add_of_pos_right hpos⟩,
      laid_implied_append ih⟩

/-- **The tokens of a source are laid between its ends.** -/
theorem laid_scan (source : String) : Laid 0 (scan source) source.length :=
  laid_scanAt source.toList 0 (Nat.zero_le _)

/-- What is not implied begins at the end of the source exactly if it is that end. -/
theorem start_eq_length_iff {source : String} (ht : t ∈ scan source)
    (himplicit : t.isImplicitMultiply = false) :
    t.span.start = source.length ↔ t.lexeme = .finish := by
  constructor
  · intro hstart
    obtain ⟨-, hroom, hstop⟩ := (laid_scan source).of_mem ht
    by_contra hne
    have hlt := hroom.start_lt_stop himplicit hne
    omega
  · intro hfinish
    obtain ⟨tokens, heq, htokens⟩ := scan_eq_append_finish source
    rw [heq] at ht
    rcases List.mem_append.mp ht with ht | ht
    · exact absurd hfinish (htokens t ht)
    · rw [List.mem_singleton.mp ht]

/-! ### The neighbours of an implied multiplication

The multiplication is put behind a numeral when a letter follows, and the letter begins a name. So
what stands next to it is known, and no error of the parser can stand at it. -/

/-- A word of the source is no implied multiplication. -/
theorem isImplicitMultiply_of_longest? (h : longest? (text.drop k) = some (l, length)) :
    isImplicitMultiply ⟨l, ⟨k, k + length⟩⟩ = false := by
  have hpos := (le_length_of_longest? h).1
  simpa [isImplicitMultiply, Span.isEmpty] using fun _ => Nat.ne_of_gt hpos

/-- Where a letter stands, the next token is a name. -/
theorem scanAt_of_isAlpha {c : Char} (hc : text[k]? = some c) (halpha : c.isAlpha = true) :
    ∃ name stop rest, scanAt text k = ⟨.name name, ⟨k, stop⟩⟩ :: rest := by
  obtain ⟨hk, rfl⟩ := List.getElem?_eq_some_iff.mp hc
  have hdrop := List.drop_eq_getElem_cons hk
  have hnumeral : numeralPart (text.drop k) = [] := by
    rw [hdrop]
    exact numeralPart_eq_nil (isDigit_eq_false_of_isAlpha halpha) (ne_point_of_isAlpha halpha) _
  have hname : namePart (text.drop k) ≠ [] := by
    rw [hdrop, namePart, List.takeWhile_cons_of_pos halpha]
    exact List.append_ne_nil_of_left_ne_nil (List.cons_ne_nil _ _) _
  exact ⟨_, _, _, scanAt_of_longest?_eq_some (longest?_of_namePart_ne_nil hnumeral hname)⟩

/-- The multiplication is implied exactly if the word is a numeral and a letter follows. -/
theorem implied_eq (l : Lexeme) (stop : Nat) (text : List Char) :
    implied l stop (text.drop stop) =
      if l.isNumber = true ∧ ∃ c, text[stop]? = some c ∧ c.isAlpha = true then
        [⟨.operator .multiply, ⟨stop, stop⟩⟩] else [] := by
  rw [implied, List.head?_drop]
  cases text[stop]? <;> simp

/-- An implied multiplication stands between a numeral and a name, with no room to either side. -/
theorem exists_neighbours {before behind : List Token} (hk : k ≤ text.length)
    (h : scanAt text k = before ++ t :: behind) (ht : t.isImplicitMultiply = true) :
    ∃ before' numeral name behind', before = before' ++ [numeral] ∧ behind = name :: behind' ∧
      numeral.lexeme.isNumber = true ∧ numeral.span.stop = t.span.start ∧
        (∃ c, text[numeral.span.stop]? = some c ∧ c.isAlpha = true) ∧
          (∃ text, name.lexeme = .name text) ∧ name.span.start = t.span.stop := by
  induction k, hk using scanAt_induction generalizing before with
  | stop =>
    have hmem : t ∈ before ++ t :: behind := List.mem_append_right _ List.mem_cons_self
    rw [← h, scanAt_length, List.mem_singleton] at hmem
    subst hmem
    cases ht
  | skip k hlt hnone ih => exact ih (scanAt_of_longest?_eq_none hnone hlt ▸ h)
  | word k l length hle hsome ih =>
    rw [scanAt_of_longest?_eq_some hsome] at h
    cases before with
    | nil =>
      obtain ⟨rfl, -⟩ := List.cons.inj h
      rw [isImplicitMultiply_of_longest? hsome] at ht
      cases ht
    | cons first before =>
    obtain ⟨rfl, hrest⟩ := List.cons.inj h
    rw [implied_eq] at hrest
    split at hrest
    · next hletter =>
      cases before with
      | nil =>
        obtain ⟨rfl, rfl⟩ := List.cons.inj hrest
        obtain ⟨hnumber, c, hc, halpha⟩ := hletter
        obtain ⟨name, stop, rest, hname⟩ := scanAt_of_isAlpha hc halpha
        exact ⟨[], _, _, rest, rfl, hname, hnumber, rfl, ⟨c, hc, halpha⟩, ⟨name, rfl⟩, rfl⟩
      | cons second before =>
        obtain ⟨before', numeral, name, behind', rfl, hnext⟩ := ih (List.cons.inj hrest).2
        exact ⟨_ :: second :: before', numeral, name, behind', rfl, hnext⟩
    · obtain ⟨before', numeral, name, behind', rfl, hnext⟩ := ih hrest
      exact ⟨_ :: before', numeral, name, behind', rfl, hnext⟩

/-- Behind a numeral that a letter follows stands an implied multiplication. -/
theorem isImplicitMultiply_of_isNumber {before behind : List Token} {numeral : Token} {c : Char}
    (hk : k ≤ text.length) (h : scanAt text k = before ++ numeral :: t :: behind)
    (hnumber : numeral.lexeme.isNumber = true) (hc : text[numeral.span.stop]? = some c)
    (halpha : c.isAlpha = true) : t.isImplicitMultiply = true := by
  induction k, hk using scanAt_induction generalizing before with
  | stop =>
    have hlength := congrArg List.length h
    simp only [scanAt_length, List.length_append, List.length_cons, List.length_nil] at hlength
    omega
  | skip k hlt hnone ih => exact ih (scanAt_of_longest?_eq_none hnone hlt ▸ h)
  | word k l length hle hsome ih =>
    rw [scanAt_of_longest?_eq_some hsome, implied_eq] at h
    cases before with
    | nil =>
      obtain ⟨rfl, hrest⟩ := List.cons.inj h
      rw [if_pos ⟨hnumber, c, hc, halpha⟩] at hrest
      obtain ⟨rfl, -⟩ := List.cons.inj hrest
      simp [isImplicitMultiply, Span.isEmpty]
    | cons first before =>
    have hrest := (List.cons.inj h).2
    split at hrest
    · cases before with
      | nil =>
        obtain ⟨rfl, -⟩ := List.cons.inj hrest
        cases hnumber
      | cons second before => exact ih (List.cons.inj hrest).2
    · exact ih hrest

/-- Where an implied multiplication stands, nothing begins but itself and the name behind it. -/
theorem exists_of_start_eq {source : String} {before behind : List Token} {u : Token}
    (h : scan source = before ++ u :: behind) (ht : t ∈ scan source)
    (himplicit : t.isImplicitMultiply = true) (hstart : u.span.start = t.span.start) :
    ∃ init numeral, numeral.lexeme.isNumber = true ∧
      (before = init ++ [numeral] ∧ u = t ∨
        before = init ++ [numeral, t] ∧ ∃ name, u.lexeme = .name name) := by
  obtain ⟨before', behind', hmem⟩ := List.append_of_mem ht
  obtain ⟨init, numeral, name, rest, rfl, rfl, hnumber, hstop, -, ⟨text, htext⟩, hstart'⟩ :=
    exists_neighbours (Nat.zero_le _) hmem himplicit
  have hempty := (isImplicitMultiply_iff.mp himplicit).2
  obtain ⟨mid, hinit, -, -, hname⟩ := laid_append.mp (hmem ▸ laid_scan source)
  obtain ⟨mid', hfront, hmid', hnumeral, -⟩ := laid_append.mp hinit
  obtain ⟨-, hroom, hrest⟩ := hname
  have hnumeralLt : numeral.span.start < numeral.span.stop := by
    refine hnumeral.start_lt_stop (isImplicitMultiply_of_ne ?_) ?_ <;>
      exact fun hl => by simp [hl, Lexeme.isNumber, Lexeme.value?] at hnumber
  have hnameLt : name.span.start < name.span.stop :=
    hroom.start_lt_stop (isImplicitMultiply_of_ne (by simp [htext])) (by simp [htext])
  have hnotBefore : u ∉ init ++ [numeral] := by
    intro hu
    rcases List.mem_append.mp hu with hu | hu
    · obtain ⟨-, huRoom, huStop⟩ := hfront.of_mem hu
      have hle := huRoom.start_le_stop
      omega
    · rw [List.mem_singleton.mp hu] at hstart
      omega
  have hnotBehind : u ∉ rest := by
    intro hu
    have huStart := (hrest.of_mem hu).1
    omega
  refine ⟨init, numeral, hnumber, ?_⟩
  rcases eq_or_eq_of_append_cons_eq (h.symm.trans hmem) hnotBefore hnotBehind with h | ⟨rfl, rfl⟩
  · exact .inl h
  · exact .inr ⟨List.append_assoc .., text, htext⟩

end Token

end SchoolAlgebra
