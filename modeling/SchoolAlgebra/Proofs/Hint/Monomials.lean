import SchoolAlgebra.Hint.Highlight
import SchoolAlgebra.Proofs.Hint.Grouping
import SchoolAlgebra.Proofs.Hint.LikeTerms

/-!
# Like terms in sums of monomials

In a sum of monomials, terms are grouped as they should be: two of them are in one group exactly if
they have the same variable with the same exponent, or no variable both.

A monomial has at most one variable, which may stand anywhere among its factors. What the walk
through the factors reads off is changed by the variable only, because constant factors have no
exponents to be mistaken for its own. So a term is read as its variable with its exponent, and the
rest is about keys: a group has all terms with its key, and there is one for each key that two terms
have.

## Main definitions

* `Expr.variablePower?` — the variable of a monomial with its exponent
* `SamePower` — the same variable with the same exponent
* `Expr.IsMonomialSum` — sums and differences of monomials

## Main results

* `Expr.IsMonomial.key_toTerm_eq_iff` — monomials have one key if they have the same power
* `Expr.grouped_iff_samePower` — the terms of a sum of monomials that are grouped together
-/

namespace SchoolAlgebra

/-- Two variables with their exponents are the same, zeros of either sign counting as one. Constants
are like each other, having no variable. -/
def SamePower (p q : Option (String × Binary64)) : Prop :=
  p.map (Prod.map id Binary64.unsignZero) = q.map (Prod.map id Binary64.unsignZero)

/-- The variable and the exponent that a group is reported with. -/
def TermGroup.power? (g : TermGroup) : Option (String × Binary64) :=
  g.name?.map fun name => (name, g.exponent)

namespace Expr

/-- The variable of a monomial with its exponent, which is one if it is not written. A constant has
none. -/
def variablePower? : Expr → Option (String × Binary64)
  | .var name _ _ => some (name, .one)
  | .power (.var name _ _) exponent _ => some (name, exponent)
  | .neg e _ => e.variablePower?
  | .binary .multiply left right _ => left.variablePower?.or right.variablePower?
  | .binary .divide left _ _ => left.variablePower?
  | _ => none

/-- Monomials joined by additions and subtractions, in any nesting. -/
inductive IsMonomialSum : Expr → Prop where
  | monomial {e : Expr} (h : IsMonomial e) : IsMonomialSum e
  | add {left right : Expr} {s : Option Span} (hleft : IsMonomialSum left)
      (hright : IsMonomialSum right) : IsMonomialSum (.binary .add left right s)
  | subtract {left right : Expr} {s : Option Span} (hleft : IsMonomialSum left)
      (hright : IsMonomialSum right) : IsMonomialSum (.binary .subtract left right s)

variable {e t u : Expr} {i j : Nat}

/-! ### Monomials -/

theorem IsConstantFactor.variablePower?_eq_none (h : e.IsConstantFactor) :
    e.variablePower? = none := by
  induction h with
  | num => rfl
  | neg _ ih | divide _ _ ih => exact ih
  | multiply _ _ ihl ihr => rw [variablePower?, ihl, ihr, Option.or_none]

/-- Read from the start, a monomial gives its variable and its exponent. -/
theorem IsMonomial.readFactors_eq (h : e.IsMonomial) {t : Term} (hname : t.name? = none)
    (hexponent : t.exponent = .one) :
    (e.readFactors t).name? = e.variablePower?.map Prod.fst ∧
      (e.readFactors t).exponent = (e.variablePower?.map Prod.snd).getD .one := by
  induction h generalizing t with
  | constant h =>
    rw [h.variablePower?_eq_none, (h.key_readFactors t).1, (h.key_readFactors t).2]
    exact ⟨hname, hexponent⟩
  | var => exact ⟨rfl, hexponent⟩
  | power => exact ⟨rfl, rfl⟩
  | neg _ ih => exact ih hname hexponent
  | multiplyLeft _ hright ih =>
    rw [readFactors, variablePower?, hright.variablePower?_eq_none, Option.or_none,
      (hright.key_readFactors _).1, (hright.key_readFactors _).2]
    exact ih hname hexponent
  | multiplyRight hleft _ ih =>
    rw [readFactors, variablePower?, hleft.variablePower?_eq_none, Option.none_or]
    exact ih ((hleft.key_readFactors t).1.trans hname)
      ((hleft.key_readFactors t).2.trans hexponent)
  | divide _ _ ih => exact ih hname hexponent

theorem samePower_iff {p q : Option (String × Binary64)} :
    SamePower p q ↔ p.map Prod.fst = q.map Prod.fst ∧
      ((p.map Prod.snd).getD .one).unsignZero = ((q.map Prod.snd).getD .one).unsignZero := by
  cases p <;> cases q <;> simp [SamePower, Prod.ext_iff]

/-- What is read off a monomial is its variable with its exponent. -/
theorem IsMonomial.key_toTerm (h : e.IsMonomial) (negative : Bool) :
    (e.toTerm negative).key = (e.variablePower?.map Prod.fst,
      ((e.variablePower?.map Prod.snd).getD .one).unsignZero) := by
  obtain ⟨hname, hexponent⟩ := h.readFactors_eq (t := ⟨none, .one, negative, e.span⟩) rfl rfl
  rw [Term.key, toTerm, hname, hexponent]

/-- **Monomials have one key exactly if they have the same variable with the same exponent.** -/
theorem IsMonomial.key_toTerm_eq_iff (ht : t.IsMonomial) (hu : u.IsMonomial) (m n : Bool) :
    (t.toTerm m).key = (u.toTerm n).key ↔ SamePower t.variablePower? u.variablePower? := by
  rw [ht.key_toTerm, hu.key_toTerm, Prod.mk.injEq, samePower_iff]

/-! ### Sums of monomials

The terms of a sum of monomials are its monomials, in whatever way the sum is nested. Two positions
are in one group if they have the same key, which for monomials is the variable and the exponent. -/

/-- A monomial is a single term. -/
theorem IsMonomial.additiveTerms_eq (h : e.IsMonomial) (negative : Bool) :
    e.additiveTerms negative = [(e, negative)] := by
  cases h with
  | constant h => cases h <;> rfl
  | _ => rfl

/-- The terms of a sum of monomials are monomials. -/
theorem IsMonomialSum.isMonomial_of_mem (h : e.IsMonomialSum) (negative : Bool) :
    ∀ t ∈ e.additiveTerms negative, t.1.IsMonomial := by
  induction h generalizing negative with
  | monomial h =>
    rw [h.additiveTerms_eq]
    exact List.forall_mem_singleton.mpr h
  | add _ _ ihl ihr | subtract _ _ ihl ihr =>
    exact List.forall_mem_append.mpr ⟨ihl _, ihr _⟩

theorem exists_of_getElem?_summands (h : e.summands[i]? = some t) :
    ∃ negative, (t, negative) ∈ e.additiveTerms false ∧
      e.terms[i]? = some (t.toTerm negative) := by
  rw [summands, List.getElem?_map] at h
  obtain ⟨⟨t, negative⟩, ht, rfl⟩ := Option.map_eq_some_iff.mp h
  refine ⟨negative, List.mem_of_getElem? ht, ?_⟩
  rw [terms, List.getElem?_map, ht]
  rfl

end Expr

/-- Where no two terms stand at the same place, the spans of a group tell its terms. -/
theorem TermGroup.mem_lineSpans_hint_iff {summands : List Expr} {i : Nat} {t : Expr} {a : Span}
    (hplaces : (summands.map Expr.span).Nodup) (hi : summands[i]? = some t) (ha : t.span = some a)
    (g : TermGroup) : a ∈ (g.hint summands).lineSpans ↔ i ∈ g.positions := by
  rw [hint, Hint.lineSpans, List.mem_filterMap]
  have hspan : (summands.map Expr.span)[i]? = some (some a) := by
    rw [List.getElem?_map, hi, Option.map_some, ha]
  constructor
  · rintro ⟨j, hj, hspan'⟩
    obtain ⟨u, hu, hua⟩ := Option.bind_eq_some_iff.mp hspan'
    have hspan' : (summands.map Expr.span)[j]? = some (some a) := by
      rw [List.getElem?_map, hu, Option.map_some, hua]
    have hlt := (List.getElem?_eq_some_iff.mp hspan').1
    rwa [← (List.getElem?_inj hlt hplaces).mp (hspan'.trans hspan.symm)]
  · intro h
    exact ⟨i, h, by rw [hi]; exact ha⟩

/-- The terms of a group have the variable and the exponent that it is reported with. -/
theorem TermGroup.samePower_of_key_eq {g : TermGroup} {p : Option (String × Binary64)}
    (h : g.key = (p.map Prod.fst, ((p.map Prod.snd).getD .one).unsignZero)) :
    SamePower g.power? p := by
  obtain ⟨hname, hexponent⟩ := Prod.mk.inj h
  rw [power?, hname]
  cases p with
  | none => rfl
  | some p => exact congrArg (fun x => some (p.1, x)) hexponent

/-- **The terms of a sum of monomials that are grouped together.** The hints are those of the groups
of terms by position. Two terms are in one group exactly if they have the same variable with the
same exponent, or are constants both, and a group is reported with the variable and the exponent of
its terms. If no two terms stand at the same place, this can be seen from the spans in the hints. -/
theorem Expr.grouped_iff_samePower (e : Expr) (hsum : e.IsMonomialSum) :
    Hint.likeTermGroups e = e.termGroups.map (TermGroup.hint e.summands) ∧
    ∀ i j t u, i ≠ j → e.summands[i]? = some t → e.summands[j]? = some u →
      ((∃ g ∈ e.termGroups, i ∈ g.positions ∧ j ∈ g.positions) ↔
        SamePower t.variablePower? u.variablePower?) ∧
      (∀ g ∈ e.termGroups, i ∈ g.positions → SamePower g.power? t.variablePower?) ∧
      ((e.summands.map Expr.span).Nodup → ∀ a b, t.span = some a → u.span = some b →
        ((∃ h ∈ Hint.likeTermGroups e, a ∈ h.lineSpans ∧ b ∈ h.lineSpans) ↔
          SamePower t.variablePower? u.variablePower?)) := by
  refine ⟨Hint.likeTermGroups_eq_map e, fun i j t u hij hi hj => ?_⟩
  obtain ⟨m, ht, hti⟩ := exists_of_getElem?_summands hi
  obtain ⟨n, hu, huj⟩ := exists_of_getElem?_summands hj
  have ht := hsum.isMonomial_of_mem false _ ht
  have hu := hsum.isMonomial_of_mem false _ hu
  -- to be in a group is to have its key, and keys of monomials are their powers
  have hgroup {g : TermGroup} (hg : g ∈ e.termGroups) {i : Nat} {t : Term}
      (hi : e.terms[i]? = some t) : i ∈ g.positions ↔ t.key = g.key := by
    simp [mem_positions_iff hg, hi]
  have hgrouped : (∃ g ∈ e.termGroups, i ∈ g.positions ∧ j ∈ g.positions) ↔
      SamePower t.variablePower? u.variablePower? := by
    rw [← ht.key_toTerm_eq_iff hu m n]
    constructor
    · rintro ⟨g, hg, hig, hjg⟩
      exact ((hgroup hg hti).mp hig).trans ((hgroup hg huj).mp hjg).symm
    · intro hkey
      obtain ⟨g, hg, hgkey⟩ := exists_mem_termGroups hij hti huj hkey
      exact ⟨g, hg, (hgroup hg hti).mpr hgkey.symm,
        (hgroup hg huj).mpr (hkey.symm.trans hgkey.symm)⟩
  refine ⟨hgrouped, fun g hg hig => ?_, fun hplaces a b ha hb => ?_⟩
  · rw [hgroup hg hti, ht.key_toTerm] at hig
    exact TermGroup.samePower_of_key_eq hig.symm
  · rw [← hgrouped, Hint.likeTermGroups_eq_map]
    have hia := TermGroup.mem_lineSpans_hint_iff hplaces hi ha
    have hjb := TermGroup.mem_lineSpans_hint_iff hplaces hj hb
    simp only [List.mem_map, exists_exists_and_eq_and, hia, hjb]

/-- The sum in `-2x/2+(2-x*2)`. -/
def Expr.scatteredSum : Expr :=
  .join .add
    (.join .divide
      (.join .multiply (.neg (.num .two (some ⟨1, 2⟩)) (some ⟨0, 2⟩)) (.var "x" .one (some ⟨2, 3⟩)))
      (.num .two (some ⟨4, 5⟩)))
    (.binary .subtract (.num .two (some ⟨7, 8⟩))
      (.join .multiply (.var "x" .one (some ⟨9, 10⟩)) (.num .two (some ⟨11, 12⟩)))
      (some ⟨6, 13⟩))

theorem Expr.isMonomialSum_scatteredSum : scatteredSum.IsMonomialSum := by
  refine .add (.monomial ?_) (.subtract (.monomial ?_) (.monomial ?_))
  · exact .divide (.multiplyRight (.neg .num) .var) rfl
  · exact .constant .num
  · exact .multiplyLeft .var .num

/-- In `-2x/2+(2-x*2)` the first and the last term are in one group, the number between is not. -/
theorem Expr.grouped_iff_samePower_scatteredSum :
    (scatteredSum.IsMonomialSum ∧ (scatteredSum.summands.map Expr.span).Nodup) ∧
    (∃ h ∈ Hint.likeTermGroups scatteredSum, ⟨0, 5⟩ ∈ h.lineSpans ∧ ⟨9, 12⟩ ∈ h.lineSpans) ∧
    ¬ ∃ h ∈ Hint.likeTermGroups scatteredSum, ⟨0, 5⟩ ∈ h.lineSpans ∧ ⟨7, 8⟩ ∈ h.lineSpans := by
  have hplaces : (scatteredSum.summands.map Expr.span).Nodup := by decide +kernel
  obtain ⟨-, hterms⟩ := grouped_iff_samePower scatteredSum isMonomialSum_scatteredSum
  refine ⟨⟨isMonomialSum_scatteredSum, hplaces⟩, ?_, ?_⟩
  · rw [(hterms 0 2 _ _ (by decide) rfl rfl).2.2 hplaces ⟨0, 5⟩ ⟨9, 12⟩ rfl rfl]
    rfl
  · rw [(hterms 0 1 _ _ (by decide) rfl rfl).2.2 hplaces ⟨0, 5⟩ ⟨7, 8⟩ rfl rfl]
    exact nofun

end SchoolAlgebra
