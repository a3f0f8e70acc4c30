import SchoolAlgebra.Hint.Analysis
import SchoolAlgebra.Proofs.Expr.Nesting

/-!
# Where hints stand

A hint carries spans without saying of which expression. Each kind of hint takes them from the nodes
of the expression it is found in: a common factor from the numbers of a numerator and of a
denominator, like terms from the terms of a sum, a reducible fraction from its two operands.

## Which expression a span is about

A hint that was found over a denominator has spans of two expressions in it, and its spans cannot
tell which. The kind of the hint can: only a common factor mixes the two, and it keeps them in two
lists. All other hints were found in one of the expressions alone.

## Main definitions

* `Expr.places` — the spans of the nodes
* `Hint.StandsIn` — the spans of a hint are places of these expressions

## Main results

* `Hint.standsIn_of_mem_commonFactors` — the hints on two expressions
* `Hint.standsIn_of_mem_ofExpr` — the hints on one
-/

namespace SchoolAlgebra

namespace Expr

/-- The spans of the nodes. -/
def places (e : Expr) : List Span := e.nodes.filterMap Expr.span

theorem mem_places {e n : Expr} {a : Span} (hn : n ∈ e.nodes) (hspan : n.span = some a) :
    a ∈ e.places :=
  List.mem_filterMap.mpr ⟨n, hn, hspan⟩

variable {e n : Expr}

/-- What is read from a source has its places in it. -/
theorem lt_of_mem_places {source : String} {a : Span} (hparse : parse source = .ok e)
    (ha : a ∈ e.places) : a.start < a.stop ∧ a.stop ≤ source.length := by
  obtain ⟨n, hn, hspan⟩ := List.mem_filterMap.mp ha
  obtain ⟨b, hb, -, hlt, hstop, -⟩ := placed_of_mem_nodes_parse hparse n hn
  obtain rfl := Option.some.inj (hspan.symm.trans hb)
  exact ⟨hlt, hstop⟩

/-! ### The parts that hints are about

What a hint is about is found by functions of their own, which list the numbers of an expression and
the terms of a sum. All they list are nodes, with the spans that these have. -/

/-- The numbers of an expression are nodes. -/
theorem num_mem_nodes_of_mem_literals {l : Literal} (h : l ∈ e.literals) :
    .num l.value l.span ∈ e.nodes := by
  induction e with
  | num v s =>
    rw [List.mem_singleton.mp h]
    exact List.mem_cons_self
  | var => cases h
  | binary op left right s ihl ihr =>
    rcases List.mem_append.mp h with h | h
    · exact mem_nodes_binary_left (ihl h) op s
    · exact mem_nodes_binary_right (ihr h) op s
  | neg _ _ ih | power _ _ _ ih => exact List.mem_cons_of_mem _ (ih h)

/-- The terms of a sum are nodes. -/
theorem mem_nodes_of_mem_additiveTerms {t : Expr × Bool} (negative : Bool)
    (h : t ∈ e.additiveTerms negative) : t.1 ∈ e.nodes := by
  induction e generalizing negative with
  | binary op left right s ihl ihr =>
    cases op with
    | add | subtract =>
      rcases List.mem_append.mp h with h | h
      · exact mem_nodes_binary_left (ihl _ h) _ s
      · exact mem_nodes_binary_right (ihr _ h) _ s
    | multiply | divide =>
      rw [List.mem_singleton.mp h]
      exact List.mem_cons_self
  | num | var | neg | power =>
    rw [List.mem_singleton.mp h]
    exact List.mem_cons_self

/-- Reading the factors of a term leaves the place of the term. -/
theorem span_readFactors (e : Expr) (t : Term) : (e.readFactors t).span = t.span := by
  induction e generalizing t with
  | num | var => rfl
  | neg _ _ ih => exact ih _
  | power _ _ _ ih => exact ih t
  | binary op _ _ _ ihl ihr =>
    cases op with
    | add | subtract => rfl
    | multiply => exact (ihr _).trans (ihl t)
    | divide => exact ihl t

theorem span_toTerm (e : Expr) (negative : Bool) : (e.toTerm negative).span = e.span :=
  span_readFactors e _

end Expr

namespace Literal

/-- The places of some of the numbers of an expression. -/
theorem spans_subset_places {literals : List Literal} {e : Expr} (h : literals ⊆ e.literals) :
    spans literals ⊆ e.places := by
  intro a ha
  obtain ⟨l, hl, hspan⟩ := List.mem_filterMap.mp ha
  exact Expr.mem_places (Expr.num_mem_nodes_of_mem_literals (h hl)) hspan

end Literal

namespace Hint

/-- The spans of a hint are places in these expressions: those of the denominator's share of a
common factor in the second, all others in the first. -/
def StandsIn (above below : Expr) : Hint → Prop
  | .commonFactor _ numerator denominator =>
    numerator ⊆ above.places ∧ denominator ⊆ below.places
  | .likeTerms _ _ terms => terms ⊆ above.places
  | .reducibleFraction _ numerator denominator =>
    numerator ∈ above.places ∧ denominator ∈ above.places

variable {e above below : Expr} {h : Hint}

/-! ### Common factors

Both passes take their spans from the numbers of the two expressions. In the second pass this is
kept while hints are added one after another. -/

theorem standsIn_of_sharedFactor? {factor : Int}
    (hh : h ∈ sharedFactor? factor above.literals below.literals) : h.StandsIn above below := by
  rw [sharedFactor?] at hh
  split at hh
  · cases hh
    exact ⟨Literal.spans_subset_places (List.filter_sublist.subset),
      Literal.spans_subset_places (List.filter_sublist.subset)⟩
  · cases hh

theorem standsIn_of_narrowFactor? {divisor : Literal} {factor : Int}
    (hdivisor : divisor ∈ below.literals)
    (hh : narrowFactor? above.literals divisor = some (factor, h)) : h.StandsIn above below := by
  obtain ⟨size, -, hh⟩ := Option.bind_eq_some_iff.mp hh
  dsimp only at hh
  split at hh
  · cases hh
    refine ⟨Literal.spans_subset_places (List.filter_sublist.subset), fun a ha => ?_⟩
    exact Expr.mem_places (Expr.num_mem_nodes_of_mem_literals hdivisor) (Option.mem_toList.mp ha)
  · cases hh

theorem standsIn_of_mem_foldl_addNarrowFactor {divisors : List Literal} {found : List Hint}
    (hdivisors : divisors ⊆ below.literals) (hfound : ∀ h ∈ found, h.StandsIn above below) :
    ∀ h ∈ divisors.foldl (addNarrowFactor above.literals) found, h.StandsIn above below := by
  induction divisors generalizing found with
  | nil => exact hfound
  | cons divisor divisors ih =>
    obtain ⟨hdivisor, hrest⟩ := List.cons_subset.mp hdivisors
    refine ih hrest fun h hh => ?_
    rw [addNarrowFactor] at hh
    split at hh
    · exact hfound h hh
    · next factor narrow hnarrow =>
      split at hh
      · exact hfound h hh
      · rcases List.mem_append.mp hh with hh | hh
        · exact hfound h hh
        · rw [List.mem_singleton.mp hh]
          exact standsIn_of_narrowFactor? hdivisor hnarrow

/-- **The hint for a common factor stands in the two expressions.** -/
theorem standsIn_of_mem_commonFactors (hh : h ∈ commonFactors above below) :
    h.StandsIn above below := by
  unfold commonFactors at hh
  dsimp only at hh
  split at hh
  · cases hh
  · refine standsIn_of_mem_foldl_addNarrowFactor (List.Subset.refl _) (fun h hh => ?_) h hh
    exact standsIn_of_sharedFactor? (Option.mem_toList.mp hh)

/-! ### Hints on one expression -/

/-- A group of like terms has two or more, and all terms of the sum that have the same key. -/
theorem exists_of_mem_likeTermGroups (hh : h ∈ likeTermGroups e) :
    ∃ first second rest, e.terms.filter (·.key = first.key) = first :: second :: rest ∧
      h = .likeTerms first.name? first.exponent
        ((first :: second :: rest).filterMap Term.span) := by
  obtain ⟨group, hgroup, hh⟩ := List.mem_filterMap.mp hh
  obtain ⟨k, -, rfl⟩ := List.mem_map.mp hgroup
  unfold ofGroup? at hh
  split at hh
  · next first second rest heq =>
    have hfirst : first ∈ e.terms.filter (·.key = k) := by
      rw [heq]
      exact List.mem_cons_self
    obtain rfl : first.key = k := of_decide_eq_true (List.mem_filter.mp hfirst).2
    exact ⟨first, second, rest, heq, (Option.some.inj hh).symm⟩
  · cases hh

/-- A fraction that can be reduced is one of integers with a divisor in common. -/
theorem exists_of_ofFraction? {left right : Expr} (hh : h ∈ ofFraction? left right) :
    ∃ n above d below a b, left = .num n (some above) ∧ right = .num d (some below) ∧
      Literal.size? ⟨n, some above⟩ = some a ∧ Literal.size? ⟨d, some below⟩ = some b ∧
      b ≠ 0 ∧ 1 < (Int.gcd a b : Int) ∧
      h = .reducibleFraction (Int.gcd a b) above below := by
  unfold ofFraction? at hh
  split at hh
  · next n above d below =>
    obtain ⟨a, ha, hh⟩ := Option.bind_eq_some_iff.mp hh
    obtain ⟨b, hb, hh⟩ := Option.bind_eq_some_iff.mp hh
    dsimp only at hh
    split at hh
    · next hdivisor =>
      exact ⟨n, above, d, below, a, b, rfl, rfl, ha, hb, hdivisor.1, hdivisor.2,
        (Option.some.inj hh).symm⟩
    · cases hh
  · cases hh

/-- A reducible fraction is found at a quotient. -/
theorem exists_of_mem_reducibleFractions (hh : h ∈ reducibleFractions e) :
    ∃ left right s, .binary .divide left right s ∈ e.nodes ∧ h ∈ ofFraction? left right := by
  induction e with
  | num | var => cases hh
  | binary op left right s ihl ihr =>
    have hoperand (hh : h ∈ reducibleFractions left ++ reducibleFractions right) :
        ∃ l r s', .binary .divide l r s' ∈ (Expr.binary op left right s).nodes ∧
          h ∈ ofFraction? l r := by
      rcases List.mem_append.mp hh with hh | hh
      · obtain ⟨l, r, s', hnode, hfraction⟩ := ihl hh
        exact ⟨l, r, s', Expr.mem_nodes_binary_left hnode op s, hfraction⟩
      · obtain ⟨l, r, s', hnode, hfraction⟩ := ihr hh
        exact ⟨l, r, s', Expr.mem_nodes_binary_right hnode op s, hfraction⟩
    cases op with
    | divide =>
      rcases List.mem_append.mp hh with hh | hh
      · exact ⟨left, right, s, Expr.self_mem_nodes _, Option.mem_toList.mp hh⟩
      · exact hoperand hh
    | add | subtract | multiply => exact hoperand hh
  | neg _ _ ih | power _ _ _ ih =>
    obtain ⟨l, r, s', hnode, hfraction⟩ := ih hh
    exact ⟨l, r, s', List.mem_cons_of_mem _ hnode, hfraction⟩

/-- A common factor takes two expressions. -/
theorem commonFactor_notMem_ofExpr (factor : Int) (numerator denominator : List Span) :
    .commonFactor factor numerator denominator ∉ ofExpr e := by
  intro hh
  rcases List.mem_append.mp hh with hh | hh
  · obtain ⟨first, second, rest, -, hkind⟩ := exists_of_mem_likeTermGroups hh
    cases hkind
  · obtain ⟨left, right, -, -, hfraction⟩ := exists_of_mem_reducibleFractions hh
    obtain ⟨_, _, _, _, _, _, -, -, -, -, -, -, hkind⟩ := exists_of_ofFraction? hfraction
    cases hkind

theorem standsIn_of_mem_likeTermGroups (hh : h ∈ likeTermGroups e) : h.StandsIn e below := by
  obtain ⟨first, second, rest, hgroup, rfl⟩ := exists_of_mem_likeTermGroups hh
  rw [← hgroup]
  intro a ha
  obtain ⟨t, ht, hspan⟩ := List.mem_filterMap.mp ha
  obtain ⟨⟨part, negative⟩, hpart, rfl⟩ := List.mem_map.mp (List.mem_filter.mp ht).1
  exact Expr.mem_places (Expr.mem_nodes_of_mem_additiveTerms false hpart)
    ((Expr.span_toTerm part negative).symm.trans hspan)

theorem standsIn_of_mem_reducibleFractions (hh : h ∈ reducibleFractions e) :
    h.StandsIn e below := by
  obtain ⟨left, right, s, hnode, hfraction⟩ := exists_of_mem_reducibleFractions hh
  obtain ⟨n, above, d, below, -, -, rfl, rfl, -, -, -, -, rfl⟩ := exists_of_ofFraction? hfraction
  have hoperands := Expr.nodes_subset_of_mem hnode
  constructor
  · exact Expr.mem_places (hoperands (Expr.mem_nodes_binary_left (Expr.self_mem_nodes _) ..)) rfl
  · exact Expr.mem_places (hoperands (Expr.mem_nodes_binary_right (Expr.self_mem_nodes _) ..)) rfl

/-- **A hint on an expression stands in it.** -/
theorem standsIn_of_mem_ofExpr (hh : h ∈ ofExpr e) : h.StandsIn e below := by
  rcases List.mem_append.mp hh with hh | hh
  · exact standsIn_of_mem_likeTermGroups hh
  · exact standsIn_of_mem_reducibleFractions hh

end Hint

end SchoolAlgebra
