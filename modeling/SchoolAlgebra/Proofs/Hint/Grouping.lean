import Mathlib.Data.List.Basic
import SchoolAlgebra.Proofs.ForMathlib.List
import SchoolAlgebra.Proofs.Hint.Places

/-!
# Groups of like terms by position

A group of like terms is reported by the spans of its terms, and only terms that have a span show in
it. Which terms of a sum make up a group is therefore told by their positions in the sum here, the
first term being at position zero. Each group has a key, which is what its terms have in common, and
all positions with this key.

The keys are taken in the order in which they first occur, so the groups are in the order of their
first terms.

## Positions and spans

A term that does not come from a source may have no span, and then it belongs to a group without
being shown. The positions tell which terms belong to it in any case. Where all terms have spans and
no two have the same one, nothing is lost by looking at spans only.

## Main definitions

* `Expr.summands` — the terms of a sum, without their signs
* `TermGroup` — a group of like terms by position
* `Expr.termGroups` — the groups of two or more terms

## Main results

* `Hint.likeTermGroups_eq_map` — the hints are those of the groups
* `Expr.mem_positions_iff` — a group has all positions with its key
* `Expr.exists_mem_termGroups` — two terms with one key are in a group
* `Expr.pairwise_termGroups` — groups are in the order of their first terms
-/

namespace SchoolAlgebra

/-! ### Groups by position -/

/-- The terms of a sum, without their signs. -/
def Expr.summands (e : Expr) : List Expr := (e.additiveTerms false).map Prod.fst

/-- A group of like terms, told by the positions of its terms in the sum. -/
structure TermGroup where
  /-- The variable; constants have none. -/
  name? : Option String
  /-- The exponent, as the first term has it. -/
  exponent : Binary64
  /-- Where its terms are among those of the sum. -/
  positions : List Nat

namespace TermGroup

/-- What the terms of the group have in common. -/
def key (g : TermGroup) : Option String × Binary64 := (g.name?, g.exponent.unsignZero)

/-- The hint for a group of the terms of a sum. -/
def hint (summands : List Expr) (g : TermGroup) : Hint :=
  .likeTerms g.name? g.exponent (g.positions.filterMap fun i => summands[i]?.bind Expr.span)

/-- The terms with a key, if there are two or more. -/
def ofKey? (terms : List Term) (k : Option String × Binary64) : Option TermGroup :=
  match terms.findIdxs (·.key = k) with
  | first :: second :: rest =>
    terms[first]?.map fun t => ⟨t.name?, t.exponent, first :: second :: rest⟩
  | _ => none

variable {terms : List Term} {k : Option String × Binary64} {g : TermGroup}

theorem mem_findIdxs_key_iff {i : Nat} :
    i ∈ terms.findIdxs (·.key = k) ↔ ∃ t, terms[i]? = some t ∧ t.key = k := by
  simp only [List.mem_findIdxs_iff_exists_getElem_pos, decide_eq_true_eq,
    List.getElem?_eq_some_iff]
  constructor
  · rintro ⟨hi, hkey⟩
    exact ⟨_, ⟨hi, rfl⟩, hkey⟩
  · rintro ⟨_, ⟨hi, rfl⟩, hkey⟩
    exact ⟨hi, hkey⟩

/-- What is known of the terms with a key when there are two or more. -/
theorem of_ofKey?_eq_some (h : ofKey? terms k = some g) :
    g.positions = terms.findIdxs (·.key = k) ∧ g.key = k ∧
      ∃ first second rest, g.positions = first :: second :: rest := by
  unfold ofKey? at h
  split at h
  · next first second rest heq =>
    have hfirst : first ∈ terms.findIdxs (·.key = k) := by
      rw [heq]
      exact List.mem_cons_self
    obtain ⟨t, ht, hkey⟩ := mem_findIdxs_key_iff.mp hfirst
    rw [ht] at h
    obtain rfl := Option.some.inj h
    exact ⟨heq.symm, hkey, first, second, rest, rfl⟩
  · cases h

theorem exists_ofKey? (h : 2 ≤ (terms.findIdxs (·.key = k)).length) :
    ∃ g, ofKey? terms k = some g := by
  match hlist : terms.findIdxs (·.key = k) with
  | [] | [_] =>
    rw [hlist] at h
    simp at h
  | first :: second :: rest =>
    have hfirst : first ∈ terms.findIdxs (·.key = k) := by
      rw [hlist]
      exact List.mem_cons_self
    obtain ⟨t, ht, -⟩ := mem_findIdxs_key_iff.mp hfirst
    simp only [ofKey?, hlist, ht]
    exact ⟨_, rfl⟩

/-- The first term of a group is the first one with its key. -/
theorem head?_positions (h : ofKey? terms k = some g) :
    g.positions.head? = some ((terms.map Term.key).idxOf k) := by
  obtain ⟨hpositions, -, first, second, rest, heq⟩ := of_ofKey?_eq_some h
  have hpos : 0 < (terms.findIdxs (·.key = k)).length := by
    rw [← hpositions, heq]
    exact Nat.succ_pos _
  rw [hpositions, List.head?_eq_getElem?, List.getElem?_eq_getElem hpos,
    List.getElem_zero_findIdxs_eq_findIdx, List.idxOf, List.findIdx_map]
  simp only [Function.comp_def, beq_eq_decide]

end TermGroup

/-- The groups of two or more like terms of a sum. -/
def Expr.termGroups (e : Expr) : List TermGroup :=
  (e.terms.map Term.key).eraseDups.filterMap (TermGroup.ofKey? e.terms)

/-! ### The hints are those of the groups -/

/-- A term stands where its expression does. -/
theorem Expr.span_getElem?_terms (e : Expr) (i : Nat) :
    e.terms[i]?.bind Term.span = e.summands[i]?.bind Expr.span := by
  rw [terms, summands, List.getElem?_map, List.getElem?_map]
  cases (e.additiveTerms false)[i]? with
  | none => rfl
  | some t => exact span_toTerm t.1 t.2

/-- The spans of the terms with a key, by position. -/
theorem Expr.filterMap_span_filter_key (e : Expr) (k : Option String × Binary64) :
    (e.terms.filter (·.key = k)).filterMap Term.span =
      (e.terms.findIdxs (·.key = k)).filterMap fun i => e.summands[i]?.bind Expr.span := by
  rw [filter_eq_filterMap_findIdxs, List.filterMap_filterMap]
  exact List.filterMap_congr fun i _ => e.span_getElem?_terms i

/-- The hint for the terms with a key. -/
theorem Hint.ofGroup?_filter_key (e : Expr) (k : Option String × Binary64) :
    ofGroup? (e.terms.filter (·.key = k)) =
      (TermGroup.ofKey? e.terms k).map (TermGroup.hint e.summands) := by
  have hfilter := filter_eq_filterMap_findIdxs (fun t : Term => decide (t.key = k)) e.terms
  have hspans := e.filterMap_span_filter_key k
  have hterm {i : Nat} (hi : i ∈ e.terms.findIdxs (·.key = k)) : ∃ t, e.terms[i]? = some t := by
    obtain ⟨t, ht, -⟩ := TermGroup.mem_findIdxs_key_iff.mp hi
    exact ⟨t, ht⟩
  rw [TermGroup.ofKey?]
  match hlist : e.terms.findIdxs (·.key = k) with
  | [] =>
    rw [hfilter, hlist]
    rfl
  | [i] =>
    obtain ⟨t, ht⟩ := hterm (hlist ▸ List.mem_cons_self)
    rw [hfilter, hlist, List.filterMap_cons_some ht]
    rfl
  | first :: second :: rest =>
    obtain ⟨t, ht⟩ := hterm (hlist ▸ List.mem_cons_self)
    obtain ⟨u, hu⟩ := hterm (hlist ▸ List.mem_cons_of_mem _ List.mem_cons_self)
    rw [hlist, hfilter, hlist, List.filterMap_cons_some ht, List.filterMap_cons_some hu] at hspans
    rw [hfilter, hlist, List.filterMap_cons_some ht, List.filterMap_cons_some hu, ofGroup?, hspans]
    simp only [ht]
    rfl

/-- **The hints for like terms are those of the groups.** -/
theorem Hint.likeTermGroups_eq_map (e : Expr) :
    likeTermGroups e = e.termGroups.map (TermGroup.hint e.summands) := by
  rw [likeTermGroups, Term.groups, Expr.termGroups, List.filterMap_map, List.map_filterMap]
  exact List.filterMap_congr fun k _ => ofGroup?_filter_key e k

/-! ### Which terms make up a group

A group keeps its key and all positions with this key, so it is determined by its key, and two
groups share no position. Since keys are taken in the order of their first occurrences, the first
positions of the groups are in order. -/

namespace Expr

variable {e : Expr} {g h : TermGroup} {k : Option String × Binary64} {i j : Nat}

theorem of_mem_termGroups (hg : g ∈ e.termGroups) : TermGroup.ofKey? e.terms g.key = some g := by
  obtain ⟨k, -, hk⟩ := List.mem_filterMap.mp hg
  rwa [(TermGroup.of_ofKey?_eq_some hk).2.1]

theorem positions_eq (hg : g ∈ e.termGroups) :
    g.positions = e.terms.findIdxs (·.key = g.key) :=
  (TermGroup.of_ofKey?_eq_some (of_mem_termGroups hg)).1

/-- **A group has all terms with its key.** -/
theorem mem_positions_iff (hg : g ∈ e.termGroups) :
    i ∈ g.positions ↔ ∃ t, e.terms[i]? = some t ∧ t.key = g.key := by
  rw [positions_eq hg, TermGroup.mem_findIdxs_key_iff]

theorem pairwise_positions (hg : g ∈ e.termGroups) : g.positions.Pairwise (· < ·) :=
  positions_eq hg ▸ List.pairwise_findIdxs

theorem exists_positions_eq (hg : g ∈ e.termGroups) :
    ∃ first second rest, g.positions = first :: second :: rest :=
  (TermGroup.of_ofKey?_eq_some (of_mem_termGroups hg)).2.2

/-- **There is a group for each key that two or more terms have.** -/
theorem exists_mem_termGroups_iff :
    (∃ g ∈ e.termGroups, g.key = k) ↔ 2 ≤ (e.terms.findIdxs (·.key = k)).length := by
  constructor
  · rintro ⟨g, hg, rfl⟩
    obtain ⟨first, second, rest, hpositions⟩ := exists_positions_eq hg
    rw [← positions_eq hg, hpositions]
    exact Nat.le_add_left 2 rest.length
  · intro htwo
    obtain ⟨g, hg⟩ := TermGroup.exists_ofKey? htwo
    obtain ⟨i, hi⟩ := List.exists_mem_of_length_pos (Nat.zero_lt_of_lt htwo)
    obtain ⟨t, ht, rfl⟩ := TermGroup.mem_findIdxs_key_iff.mp hi
    refine ⟨g, List.mem_filterMap.mpr ⟨t.key, List.mem_eraseDups.mpr ?_, hg⟩,
      (TermGroup.of_ofKey?_eq_some hg).2.1⟩
    exact List.mem_map_of_mem (List.mem_of_getElem? ht)

/-- Two terms with one key are in a group. -/
theorem exists_mem_termGroups {t u : Term} (hij : i ≠ j) (hi : e.terms[i]? = some t)
    (hj : e.terms[j]? = some u) (hkey : t.key = u.key) : ∃ g ∈ e.termGroups, g.key = t.key := by
  refine exists_mem_termGroups_iff.mpr (two_le_length_of_mem ?_ ?_ hij)
  · exact TermGroup.mem_findIdxs_key_iff.mpr ⟨t, hi, rfl⟩
  · exact TermGroup.mem_findIdxs_key_iff.mpr ⟨u, hj, hkey.symm⟩

/-- **Groups have different keys and are in the order of their first terms.** -/
theorem pairwise_termGroups (e : Expr) :
    e.termGroups.Pairwise fun g h => g.key ≠ h.key ∧
      ∃ i j, g.positions.head? = some i ∧ h.positions.head? = some j ∧ i < j := by
  refine List.pairwise_filterMap.mpr ((pairwise_eraseDups _).imp fun {k k'} hlt => ?_)
  intro g hg h hh
  refine ⟨?_, _, _, TermGroup.head?_positions hg, TermGroup.head?_positions hh, hlt⟩
  rw [(TermGroup.of_ofKey?_eq_some hg).2.1, (TermGroup.of_ofKey?_eq_some hh).2.1]
  rintro rfl
  exact Nat.lt_irrefl _ hlt

end Expr

end SchoolAlgebra
