import SchoolAlgebra.Hint.Highlight
import SchoolAlgebra.Proofs.Expr.Nesting
import SchoolAlgebra.Proofs.Hint.Grouping
import SchoolAlgebra.Proofs.Hint.LikeTerms

/-!
# The highlights of like terms

The terms of a sum that was read from a source stand one behind the other, whatever parentheses
there are around parts of the sum. So a position in the sum goes with a span, later positions with
later spans, and what is known of groups by position is true of what is highlighted: a group for
each variable with an exponent that two terms share, in the order of their first terms, with the
spans of all its terms from left to right, and no character in two of them.

## From placed nodes to highlights

Spans are nested in every expression that is read from a source, and this is all that is used of a
source. So the main statement is about sums whose terms stand apart, and the theorem on sources is
the case in which nested spans make them do so.

## Main definitions

* `Expr.TermsApart` — the terms of a sum stand one behind the other in its span
* `Hint.IsTermPartition` — what the groups of like terms highlight

## Main results

* `Expr.termsApart` — in an expression with nested spans the terms stand apart
* `Expr.nodup_flatMap_positions` — no term is in two groups
* `Hint.isTermPartition_likeTermGroups` — the highlights of a source
-/

namespace SchoolAlgebra

namespace Expr

/-! ### The terms of a sum stand apart

The terms of a sum are taken from its nodes from left to right. A term in a left operand ends before
that operand does, and a term in the right one begins no sooner than the right one. -/

/-- The terms of the sum have spans in its span, none of them empty, and each ends before the next
one begins. -/
structure TermsApart (e : Expr) : Prop where
  /-- Each term stands in the sum. -/
  within : ∀ t ∈ e.summands, ∃ a root, t.span = some a ∧ e.span = some root ∧
    a.start < a.stop ∧ a.Within root
  /-- The terms are in the order of their spans. -/
  pairwise : e.summands.Pairwise fun t u =>
    ∃ a b, t.span = some a ∧ u.span = some b ∧ a.stop ≤ b.start

variable {e : Expr} {lo hi : Nat}

theorem pairwise_additiveTerms (hplaced : ∀ n ∈ e.nodes, n.Placed lo hi) (negative : Bool) :
    (e.additiveTerms negative).Pairwise fun t u =>
      ∃ a b, t.1.span = some a ∧ u.1.span = some b ∧ a.stop ≤ b.start := by
  induction e generalizing negative with
  | num | var | neg | power => exact List.pairwise_singleton ..
  | binary op left right s ihl ihr =>
    obtain ⟨-, hleft, hright⟩ := forall_mem_nodes_binary.mp hplaced
    cases op with
    | multiply | divide => exact List.pairwise_singleton ..
    | add | subtract =>
      refine List.pairwise_append.mpr ⟨ihl hleft _, ihr hright _, fun t ht u hu => ?_⟩
      obtain ⟨a, b, ha, hb, -, hab⟩ := exists_before_of_mem_nodes hplaced
        (mem_nodes_of_mem_additiveTerms _ ht) (mem_nodes_of_mem_additiveTerms _ hu)
      exact ⟨a, b, ha, hb, hab⟩

/-- **Where spans are nested, the terms of a sum stand apart.** -/
theorem termsApart (hplaced : ∀ n ∈ e.nodes, n.Placed lo hi) : e.TermsApart where
  within t ht := by
    obtain ⟨root, hroot, -⟩ := hplaced e e.self_mem_nodes
    obtain ⟨term, hterm, rfl⟩ := List.mem_map.mp ht
    obtain ⟨a, ha, hlt, hwithin⟩ :=
      exists_within_of_mem_nodes hplaced hroot _ (mem_nodes_of_mem_additiveTerms false hterm)
    exact ⟨a, root, ha, hroot, hlt, hwithin⟩
  pairwise := List.pairwise_map.mpr (pairwise_additiveTerms hplaced false)

namespace TermsApart

variable {i j : Nat} {a b : Span} {g : TermGroup}

/-- The terms of a group have spans. -/
theorem exists_span (h : e.TermsApart) (hg : g ∈ e.termGroups) (hi : i ∈ g.positions) :
    ∃ a, e.summands[i]?.bind Expr.span = some a := by
  obtain ⟨t, ht, -⟩ := (mem_positions_iff hg).mp hi
  have hlt : i < e.summands.length := by
    have := (List.getElem?_eq_some_iff.mp ht).1
    simpa [terms, summands] using this
  obtain ⟨a, root, ha, -⟩ := h.within _ (List.getElem_mem hlt)
  exact ⟨a, by rw [List.getElem?_eq_getElem hlt]; exact ha⟩

/-- Terms further behind stand further behind. -/
theorem stop_le_start (h : e.TermsApart) (hij : i < j)
    (ha : e.summands[i]?.bind Expr.span = some a) (hb : e.summands[j]?.bind Expr.span = some b) :
    a.stop ≤ b.start := by
  obtain ⟨t, ht, hta⟩ := Option.bind_eq_some_iff.mp ha
  obtain ⟨u, hu, hub⟩ := Option.bind_eq_some_iff.mp hb
  obtain ⟨hi, rfl⟩ := List.getElem?_eq_some_iff.mp ht
  obtain ⟨hj, rfl⟩ := List.getElem?_eq_some_iff.mp hu
  obtain ⟨a', b', ha', hb', hab⟩ := List.pairwise_iff_getElem.mp h.pairwise i j hi hj hij
  obtain rfl := Option.some.inj (hta.symm.trans ha')
  obtain rfl := Option.some.inj (hub.symm.trans hb')
  exact hab

end TermsApart

/-- **No term is in two groups.** -/
theorem nodup_flatMap_positions (e : Expr) : (e.termGroups.flatMap TermGroup.positions).Nodup := by
  refine List.nodup_flatMap.mpr ⟨fun g hg => ?_, ?_⟩
  · exact (pairwise_positions hg).imp Nat.ne_of_lt
  · refine (pairwise_termGroups e).imp_of_mem fun hg hh hne => ?_
    intro i hi hi'
    obtain ⟨t, ht, hkey⟩ := (mem_positions_iff hg).mp hi
    obtain ⟨u, hu, hkey'⟩ := (mem_positions_iff hh).mp hi'
    obtain rfl := Option.some.inj (ht.symm.trans hu)
    exact hne.1 (hkey.symm.trans hkey')

end Expr

namespace Hint

/-! ### What is highlighted

In a sum whose terms stand apart positions and spans are in the same order, so each statement on
positions becomes one on spans. -/

/-- The variable and the exponent that a group of like terms is about, zeros of either sign counting
as one. -/
def key? : Hint → Option (Option String × Binary64)
  | .likeTerms name? exponent _ => some (name?, exponent.unsignZero)
  | _ => none

/-- What the hints for the like terms of a sum highlight. -/
structure IsTermPartition (e : Expr) (hints : List Hint) : Prop where
  /-- A group has the spans of all terms with its variable and its exponent, two or more of them,
  from left to right. -/
  entry : ∀ h ∈ hints, ∃ name? exponent, h = .likeTerms name? exponent
    ((e.alike name? exponent).filterMap Expr.span) ∧ 2 ≤ h.lineSpans.length ∧
      h.lineSpans.Pairwise fun a b => a.stop ≤ b.start
  /-- No variable with its exponent has two groups. -/
  nodup : (hints.filterMap key?).Nodup
  /-- It has one exactly if two terms share it. -/
  mem_iff : ∀ name? exponent, (name?, exponent.unsignZero) ∈ hints.filterMap key? ↔
    2 ≤ (e.alike name? exponent).length
  /-- The groups are in the order of their first terms. -/
  ordered : hints.Pairwise fun g h => ∃ a b, g.lineSpans.head? = some a ∧
    h.lineSpans.head? = some b ∧ a.stop ≤ b.start
  /-- No two spans have a character in common. -/
  apart : (hints.flatMap lineSpans).Pairwise fun a b => a.stop ≤ b.start ∨ b.stop ≤ a.start

variable {e : Expr} {g : TermGroup}

theorem filterMap_key?_likeTermGroups (e : Expr) :
    (likeTermGroups e).filterMap key? = e.termGroups.map TermGroup.key := by
  rw [likeTermGroups_eq_map, List.filterMap_map]
  exact congrFun List.filterMap_eq_map _

theorem head?_lineSpans_hint {i : Nat} {a : Span} (hi : g.positions.head? = some i)
    (ha : e.summands[i]?.bind Expr.span = some a) :
    (g.hint e.summands).lineSpans.head? = some a := by
  obtain ⟨rest, hpositions⟩ := List.head?_eq_some_iff.mp hi
  rw [TermGroup.hint, lineSpans, hpositions, List.filterMap_cons, ha, List.head?_cons]

/-- **The highlights of the like terms of a sum that stand apart.** -/
theorem isTermPartition_of_termsApart (h : e.TermsApart) :
    IsTermPartition e (likeTermGroups e) where
  entry hint hhint := by
    rw [likeTermGroups_eq_map] at hhint
    obtain ⟨g, hg, rfl⟩ := List.mem_map.mp hhint
    refine ⟨g.name?, g.exponent, ?_, ?_, ?_⟩
    · rw [TermGroup.hint, Expr.filterMap_span_alike, Expr.filterMap_span_filter_key,
        Expr.positions_eq hg]
      rfl
    · obtain ⟨first, second, rest, hpositions⟩ := Expr.exists_positions_eq hg
      have hsome : ∀ i ∈ g.positions, (e.summands[i]?.bind Expr.span).isSome = true := fun i hi =>
        Option.isSome_iff_exists.mpr (h.exists_span hg hi)
      rw [TermGroup.hint, lineSpans, List.filterMap_length_eq_length.mpr hsome, hpositions]
      exact Nat.le_add_left 2 rest.length
    · exact List.pairwise_filterMap.mpr ((Expr.pairwise_positions hg).imp
        fun hij a ha b hb => h.stop_le_start hij ha hb)
  nodup := by
    rw [filterMap_key?_likeTermGroups]
    exact List.pairwise_map.mpr ((Expr.pairwise_termGroups e).imp And.left)
  mem_iff name? exponent := by
    rw [filterMap_key?_likeTermGroups, List.mem_map, Expr.exists_mem_termGroups_iff,
      List.length_findIdxs, List.countP_eq_length_filter, Expr.length_alike]
  ordered := by
    rw [likeTermGroups_eq_map]
    refine List.pairwise_map.mpr ((Expr.pairwise_termGroups e).imp_of_mem ?_)
    rintro g g' hg hg' ⟨-, i, j, hi, hj, hij⟩
    obtain ⟨a, ha⟩ := h.exists_span hg (List.mem_of_mem_head? hi)
    obtain ⟨b, hb⟩ := h.exists_span hg' (List.mem_of_mem_head? hj)
    exact ⟨a, b, head?_lineSpans_hint hi ha, head?_lineSpans_hint hj hb,
      h.stop_le_start hij ha hb⟩
  apart := by
    -- the spans are those of the positions in all groups, and no position is there twice
    have hspans : (likeTermGroups e).flatMap lineSpans =
        (e.termGroups.flatMap TermGroup.positions).filterMap
          fun i => e.summands[i]?.bind Expr.span := by
      rw [likeTermGroups_eq_map, List.flatMap_map, List.filterMap_flatMap]
      rfl
    rw [hspans]
    refine List.pairwise_filterMap.mpr ((Expr.nodup_flatMap_positions e).imp ?_)
    intro i j hne a ha b hb
    rcases Nat.lt_or_gt_of_ne hne with hij | hji
    · exact .inl (h.stop_le_start hij ha hb)
    · exact .inr (h.stop_le_start hji hb ha)

/-- **The highlights of the like terms of a source.** The terms of a sum that was read from a source
stand one behind the other in its span. There is one group for each variable with an exponent that
two terms share, with the spans of all these terms from left to right, in the order of the first
terms, and no character is in two of the spans. -/
theorem isTermPartition_likeTermGroups (source : String) (e : Expr)
    (hparse : Expr.parse source = .ok e) :
    e.TermsApart ∧ IsTermPartition e (likeTermGroups e) := by
  have happart := Expr.termsApart (Expr.placed_of_mem_nodes_parse hparse)
  exact ⟨happart, isTermPartition_of_termsApart happart⟩

/-- The sum in `x+(2-(x-1))`. -/
def nestedSum : Expr :=
  .join .add (.var "x" .one (some ⟨0, 1⟩))
    (.binary .subtract (.num .two (some ⟨3, 4⟩))
      (.binary .subtract (.var "x" .one (some ⟨6, 7⟩)) (.num .one (some ⟨8, 9⟩)) (some ⟨5, 10⟩))
      (some ⟨2, 11⟩))

/-- In `x+(2-(x-1))` the variable is highlighted at both places, and so are the numbers. -/
theorem isTermPartition_nestedSum :
    Expr.parse "x+(2-(x-1))" = .ok nestedSum ∧ nestedSum.TermsApart ∧
      IsTermPartition nestedSum [.likeTerms (some "x") .one [⟨0, 1⟩, ⟨6, 7⟩],
        .likeTerms none .one [⟨3, 4⟩, ⟨8, 9⟩]] := by
  have hparse : Expr.parse "x+(2-(x-1))" = .ok nestedSum := by decide +kernel
  have hhints : likeTermGroups nestedSum = [.likeTerms (some "x") .one [⟨0, 1⟩, ⟨6, 7⟩],
      .likeTerms none .one [⟨3, 4⟩, ⟨8, 9⟩]] := by decide +kernel
  rw [← hhints]
  exact ⟨hparse, isTermPartition_likeTermGroups _ _ hparse⟩

end Hint

end SchoolAlgebra
