import SchoolAlgebra.Proofs.Grammar.Phrase

/-!
# The grammar is unambiguous

A list of lexemes has at most one derivation in which every exponent is the longest one. The proof
reads two derivations side by side. What makes it go through is a statement on beginnings: where
two phrases of one kind begin the same list, and what follows each of them could not have gone on
with it, the phrases are the same and so is what follows.

What can go on with a phrase depends on its kind: a caret with an atom, a multiplicative operator
with a factor as well, an additive one with a term as well.

## Why beginnings

Two derivations of one list need not divide it alike, as far as one knows before the end of the
proof. The statement on beginnings lets the two be compared from the left: the first parts begin the
same list, and each is followed by something that cannot go on with it, so they are the same and
what is left of the list is the same. Then the second parts are compared in the same way.

## Main results

* `Phrase.Sum.eq_of_spells` — two derivations of one list of lexemes are the same
-/

namespace SchoolAlgebra

namespace Phrase

/-- A lexeme at which a factor ends: one that is no caret. -/
def EndsFactor (next : Lexeme) : Prop := next ≠ .caret

/-- A lexeme at which a term ends: one that is no caret and no multiplicative operator. -/
def EndsTerm (next : Lexeme) : Prop :=
  EndsFactor next ∧ ∀ op, next = .operator op → op.isAdditive = true

/-- A lexeme at which a sum ends: one that is no caret and no operator. -/
def EndsSum (next : Lexeme) : Prop := EndsFactor next ∧ ∀ op, next ≠ .operator op

theorem EndsSum.endsTerm {next : Lexeme} (h : EndsSum next) : EndsTerm next :=
  ⟨h.1, fun op hop => absurd hop (h.2 op)⟩

theorem endsFactor_operator (op : Operator) : EndsFactor (.operator op) := nofun

theorem endsTerm_operator {op : Operator} (h : op.isAdditive = true) : EndsTerm (.operator op) :=
  ⟨nofun, fun _ hop => by cases hop; exact h⟩

theorem endsSum_rightParen : EndsSum .rightParen := ⟨nofun, nofun⟩

theorem endsSum_finish : EndsSum .finish := ⟨nofun, nofun⟩

theorem SumRest.endsTerm_head {next : Lexeme} (h : EndsSum next) (rest : SumRest) :
    EndsTerm (rest.head next) := by
  cases rest with
  | done => exact h.endsTerm
  | more op hop => exact endsTerm_operator hop

theorem TermRest.endsFactor_head {next : Lexeme} (h : EndsTerm next) (rest : TermRest) :
    EndsFactor (rest.head next) := by
  cases rest with
  | done => exact h.1
  | more op => exact endsFactor_operator op

/-! ### The first lexeme of a phrase -/

/-- The further terms of a sum, and what follows, begin with `head`. -/
theorem SumRest.lexemes_append_cons (rest : SumRest) (next : Lexeme) (r : List Lexeme) :
    ∃ r', rest.lexemes ++ next :: r = rest.head next :: r' := by
  cases rest <;> exact ⟨_, rfl⟩

/-- The further factors of a term, and what follows, begin with `head`. -/
theorem TermRest.lexemes_append_cons (rest : TermRest) (next : Lexeme) (r : List Lexeme) :
    ∃ r', rest.lexemes ++ next :: r = rest.head next :: r' := by
  cases rest <;> exact ⟨_, rfl⟩

/-- A power does not begin with a minus sign. -/
theorem Power.lexemes_append_ne (p : Power) (r r' : List Lexeme) :
    p.lexemes ++ r ≠ .operator .subtract :: r' := by
  rcases p with ⟨a⟩ | ⟨a, x⟩ <;> cases a <;> simp [Power.lexemes, Atom.lexemes]

/-! ### Reading two derivations side by side

The induction is over the first derivation, one case for each of its constructors. The second one is
taken apart as well; where it has another constructor, the two would begin with different lexemes,
or what follows one of them would go on with it. -/

theorem Exponent.eq_of_append_eq {x y : Exponent} {n m : Lexeme} {r r' : List Lexeme}
    (h : x.lexemes ++ n :: r = y.lexemes ++ m :: r') (hx : x.Maximal n) (hy : y.Maximal m) :
    x = y ∧ n :: r = m :: r' := by
  have hxs := fun text value => mt (fun hn : n = .number text value => (hn ▸ hx).numeral?_isSome)
  have hys := fun text value => mt (fun hm : m = .number text value => (hm ▸ hy).numeral?_isSome)
  have hxm := mt (fun hn : n = .operator .subtract => (hn ▸ hx).minus_or_isSome)
  have hym := mt (fun hm : m = .operator .subtract => (hm ▸ hy).minus_or_isSome)
  obtain ⟨minus, numeral⟩ := x
  obtain ⟨minus', numeral'⟩ := y
  -- where one of the two has a numeral or a sign that the other one lacks, the other one is not the
  -- longest exponent there
  cases numeral <;> cases numeral' <;> cases minus <;> cases minus' <;>
    simp_all [lexemes, Prod.ext_iff]
  all_goals exact hys _ _ h.1.symm

mutual

theorem Atom.eq_of_append_eq : ∀ {a b : Atom} {r r' : List Lexeme},
    a.lexemes ++ r = b.lexemes ++ r' → a.Maximal → b.Maximal → a = b ∧ r = r'
  | .number .., .number .., _, _, h, _, _ => by simpa [Atom.lexemes, and_assoc] using h
  | .name _, .name _, _, _, h, _, _ => by simpa [Atom.lexemes] using h
  | .group s, .group t, r, r', h, hs, ht => by
    have hinner : s.lexemes ++ .rightParen :: r = t.lexemes ++ .rightParen :: r' := by
      simpa [Atom.lexemes] using h
    obtain ⟨rfl, hrest⟩ := Sum.eq_of_append_eq hinner hs ht endsSum_rightParen endsSum_rightParen
    exact ⟨rfl, (List.cons_inj_right _).mp hrest⟩
  | .number .., .name _, _, _, h, _, _ => by simp [Atom.lexemes] at h
  | .number .., .group _, _, _, h, _, _ => by simp [Atom.lexemes] at h
  | .name _, .number .., _, _, h, _, _ => by simp [Atom.lexemes] at h
  | .name _, .group _, _, _, h, _, _ => by simp [Atom.lexemes] at h
  | .group _, .number .., _, _, h, _, _ => by simp [Atom.lexemes] at h
  | .group _, .name _, _, _, h, _, _ => by simp [Atom.lexemes] at h

theorem Power.eq_of_append_eq : ∀ {p q : Power} {n m : Lexeme} {r r' : List Lexeme},
    p.lexemes ++ n :: r = q.lexemes ++ m :: r' → p.Maximal n → q.Maximal m → EndsFactor n →
      EndsFactor m → p = q ∧ n :: r = m :: r'
  | .plain a, .plain b, _, _, _, _, h, hp, hq, _, _ => by
    obtain ⟨rfl, hrest⟩ := Atom.eq_of_append_eq h hp hq
    exact ⟨rfl, hrest⟩
  | .raised a x, .raised b y, _, _, _, _, h, hp, hq, _, _ => by
    simp only [Power.lexemes, List.append_assoc, List.cons_append] at h
    obtain ⟨rfl, hrest⟩ := Atom.eq_of_append_eq h hp.1 hq.1
    obtain ⟨rfl, hnext⟩ :=
      Exponent.eq_of_append_eq ((List.cons_inj_right _).mp hrest) hp.2 hq.2
    exact ⟨rfl, hnext⟩
  | .plain a, .raised b y, _, _, _, _, h, hp, hq, hn, _ => by
    simp only [Power.lexemes, List.append_assoc, List.cons_append] at h
    obtain ⟨-, hrest⟩ := Atom.eq_of_append_eq h hp hq.1
    exact absurd (List.cons.inj hrest).1 hn
  | .raised a x, .plain b, _, _, _, _, h, hp, hq, _, hm => by
    simp only [Power.lexemes, List.append_assoc, List.cons_append] at h
    obtain ⟨-, hrest⟩ := Atom.eq_of_append_eq h hp.1 hq
    exact absurd (List.cons.inj hrest).1.symm hm

theorem Factor.eq_of_append_eq : ∀ {f g : Factor} {n m : Lexeme} {r r' : List Lexeme},
    f.lexemes ++ n :: r = g.lexemes ++ m :: r' → f.Maximal n → g.Maximal m → EndsFactor n →
      EndsFactor m → f = g ∧ n :: r = m :: r'
  | .minus f, .minus g, _, _, _, _, h, hf, hg, hn, hm => by
    obtain ⟨rfl, hrest⟩ :=
      Factor.eq_of_append_eq ((List.cons_inj_right _).mp h) hf hg hn hm
    exact ⟨rfl, hrest⟩
  | .power p, .power q, _, _, _, _, h, hf, hg, hn, hm => by
    obtain ⟨rfl, hrest⟩ := Power.eq_of_append_eq h hf hg hn hm
    exact ⟨rfl, hrest⟩
  | .minus f, .power q, _, _, _, _, h, _, _, _, _ => absurd h.symm (q.lexemes_append_ne _ _)
  | .power p, .minus g, _, _, _, _, h, _, _, _, _ => absurd h (p.lexemes_append_ne _ _)

theorem TermRest.eq_of_append_eq : ∀ {s t : TermRest} {n m : Lexeme} {r r' : List Lexeme},
    s.lexemes ++ n :: r = t.lexemes ++ m :: r' → s.Maximal n → t.Maximal m → EndsTerm n →
      EndsTerm m → s = t ∧ n :: r = m :: r'
  | .done, .done, _, _, _, _, h, _, _, _, _ => ⟨rfl, h⟩
  | .done, .more op hop f rest, _, _, _, _, h, _, _, hn, _ => by
    have hadd := hn.2 op (List.cons.inj h).1
    simp [Operator.isMultiplicative, hadd] at hop
  | .more op hop f rest, .done, _, _, _, _, h, _, _, _, hm => by
    have hadd := hm.2 op (List.cons.inj h).1.symm
    simp [Operator.isMultiplicative, hadd] at hop
  | .more op _ f rest, .more op' _ g rest', n, m, r, r', h, hs, ht, hn, hm => by
    obtain ⟨v, hv⟩ := rest.lexemes_append_cons n r
    obtain ⟨w, hw⟩ := rest'.lexemes_append_cons m r'
    simp only [TermRest.lexemes, List.cons_append, List.append_assoc, hv, hw] at h
    obtain ⟨hop, htail⟩ := List.cons.inj h
    cases hop
    obtain ⟨rfl, hnext⟩ := Factor.eq_of_append_eq htail hs.1 ht.1 (rest.endsFactor_head hn)
      (rest'.endsFactor_head hm)
    rw [← hv, ← hw] at hnext
    obtain ⟨rfl, hrest⟩ := TermRest.eq_of_append_eq hnext hs.2 ht.2 hn hm
    exact ⟨rfl, hrest⟩

theorem Term.eq_of_append_eq : ∀ {s t : Term} {n m : Lexeme} {r r' : List Lexeme},
    s.lexemes ++ n :: r = t.lexemes ++ m :: r' → s.Maximal n → t.Maximal m → EndsTerm n →
      EndsTerm m → s = t ∧ n :: r = m :: r'
  | .mk f rest, .mk g rest', n, m, r, r', h, hs, ht, hn, hm => by
    obtain ⟨v, hv⟩ := rest.lexemes_append_cons n r
    obtain ⟨w, hw⟩ := rest'.lexemes_append_cons m r'
    rw [Term.lexemes, Term.lexemes, List.append_assoc, List.append_assoc, hv, hw] at h
    obtain ⟨rfl, hnext⟩ := Factor.eq_of_append_eq h hs.1 ht.1 (rest.endsFactor_head hn)
      (rest'.endsFactor_head hm)
    rw [← hv, ← hw] at hnext
    obtain ⟨rfl, hrest⟩ := TermRest.eq_of_append_eq hnext hs.2 ht.2 hn hm
    exact ⟨rfl, hrest⟩

theorem SumRest.eq_of_append_eq : ∀ {s t : SumRest} {n m : Lexeme} {r r' : List Lexeme},
    s.lexemes ++ n :: r = t.lexemes ++ m :: r' → s.Maximal n → t.Maximal m → EndsSum n →
      EndsSum m → s = t ∧ n :: r = m :: r'
  | .done, .done, _, _, _, _, h, _, _, _, _ => ⟨rfl, h⟩
  | .done, .more op _ t rest, _, _, _, _, h, _, _, hn, _ => absurd (List.cons.inj h).1 (hn.2 op)
  | .more op _ t rest, .done, _, _, _, _, h, _, _, _, hm =>
    absurd (List.cons.inj h).1.symm (hm.2 op)
  | .more op _ s rest, .more op' _ t rest', n, m, r, r', h, hs, ht, hn, hm => by
    obtain ⟨v, hv⟩ := rest.lexemes_append_cons n r
    obtain ⟨w, hw⟩ := rest'.lexemes_append_cons m r'
    simp only [SumRest.lexemes, List.cons_append, List.append_assoc, hv, hw] at h
    obtain ⟨hop, htail⟩ := List.cons.inj h
    cases hop
    obtain ⟨rfl, hnext⟩ := Term.eq_of_append_eq htail hs.1 ht.1 (rest.endsTerm_head hn)
      (rest'.endsTerm_head hm)
    rw [← hv, ← hw] at hnext
    obtain ⟨rfl, hrest⟩ := SumRest.eq_of_append_eq hnext hs.2 ht.2 hn hm
    exact ⟨rfl, hrest⟩

theorem Sum.eq_of_append_eq : ∀ {s t : Sum} {n m : Lexeme} {r r' : List Lexeme},
    s.lexemes ++ n :: r = t.lexemes ++ m :: r' → s.Maximal n → t.Maximal m → EndsSum n →
      EndsSum m → s = t ∧ n :: r = m :: r'
  | .mk s rest, .mk t rest', n, m, r, r', h, hs, ht, hn, hm => by
    obtain ⟨v, hv⟩ := rest.lexemes_append_cons n r
    obtain ⟨w, hw⟩ := rest'.lexemes_append_cons m r'
    rw [Sum.lexemes, Sum.lexemes, List.append_assoc, List.append_assoc, hv, hw] at h
    obtain ⟨rfl, hnext⟩ := Term.eq_of_append_eq h hs.1 ht.1 (rest.endsTerm_head hn)
      (rest'.endsTerm_head hm)
    rw [← hv, ← hw] at hnext
    obtain ⟨rfl, hrest⟩ := SumRest.eq_of_append_eq hnext hs.2 ht.2 hn hm
    exact ⟨rfl, hrest⟩

end

/-- **A list of lexemes has at most one derivation.** -/
theorem Sum.eq_of_spells {s t : Sum} {ls : List Lexeme} (hs : s.Spells ls) (ht : t.Spells ls) :
    s = t := by
  have h : s.lexemes ++ .finish :: [] = t.lexemes ++ .finish :: [] := by rw [hs.1, ht.1]
  exact (Sum.eq_of_append_eq h hs.2 ht.2 endsSum_finish endsSum_finish).1

end Phrase

end SchoolAlgebra
