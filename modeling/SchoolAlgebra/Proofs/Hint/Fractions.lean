import SchoolAlgebra.Hint.Highlight
import SchoolAlgebra.Proofs.Expr.Nesting
import SchoolAlgebra.Proofs.ForMathlib.List
import SchoolAlgebra.Proofs.Hint.Places

/-!
# The fractions that can be reduced

An expression that was read from a source has one hint for each quotient of two integers with a
divisor above one in common, in the order in which the quotients stand. What a hint highlights
reaches from the numerator to the denominator, and reads as the quotient of the two numbers.

The last point is not an instance of reading the excerpt of a node. In `(6/4)` the parentheses are
in the span of the quotient and not in what is highlighted, and elsewhere in the source a caret may
stand without a numeral, where nodes need not be what their excerpts read as. It holds because both
operands are leaves.

## Main definitions

* `Expr.isReducible` — a quotient of integers that can be reduced
* `Hint.IsFractionHint` — what the hint for such a quotient says and highlights
* `Hint.IsFractionReport` — the hints for all of them

## Main results

* `Hint.reducibleFractions_eq_filterMap` — the hints come from the quotients, node by node
* `Expr.exists_parse_excerpt_quotient` — what an operation on two leaves reads as
* `Hint.isFractionReport_reducibleFractions` — the hints for a source
-/

namespace SchoolAlgebra

/-! ### Quotients that can be reduced

The nodes are gone through in order, and each gives one hint or none. Whether it does depends on the
node alone, so the hints are what is left of the list of nodes. -/

namespace Expr

/-- Whether an expression is a quotient of two integers, the divisor other than zero, that have a
divisor above one in common. -/
def isReducible : Expr → Bool
  | .binary .divide (.num v _) (.num w _) _ =>
    match v.toInt?, w.toInt? with
    | some n, some d => d ≠ 0 ∧ 1 < Int.gcd n d
    | _, _ => false
  | _ => false

variable {e : Expr}

theorem isReducible_iff :
    e.isReducible = true ↔ ∃ v w n d s₁ s₂ s, e = .binary .divide (.num v s₁) (.num w s₂) s ∧
      v.toInt? = some n ∧ w.toInt? = some d ∧ d ≠ 0 ∧ 1 < Int.gcd n d := by
  constructor
  · intro h
    unfold isReducible at h
    split at h
    · next v s₁ w s₂ s =>
      split at h
      · next n d hn hd =>
        obtain ⟨hzero, hgcd⟩ := of_decide_eq_true h
        exact ⟨v, w, n, d, s₁, s₂, s, rfl, hn, hd, hzero, hgcd⟩
      · cases h
    · cases h
  · rintro ⟨v, w, n, d, s₁, s₂, s, rfl, hn, hd, hzero, hgcd⟩
    rw [isReducible, hn, hd]
    exact decide_eq_true ⟨hzero, hgcd⟩

end Expr

namespace Hint

variable {e node : Expr} {h : Hint} {source : String}

/-- The hint for a node: one for a quotient that can be reduced. -/
def ofQuotient? : Expr → Option Hint
  | .binary .divide left right _ => ofFraction? left right
  | _ => none

/-- **The hints come from the nodes of an expression**, each by itself. -/
theorem reducibleFractions_eq_filterMap (e : Expr) :
    reducibleFractions e = e.nodes.filterMap ofQuotient? := by
  induction e with
  | num | var => rfl
  | neg e s ih => exact ih
  | power base exponent s ih => exact ih
  | binary op left right s ihl ihr =>
    have hoperands : (left.nodes ++ right.nodes).filterMap ofQuotient? =
        reducibleFractions left ++ reducibleFractions right := by
      rw [List.filterMap_append, ihl, ihr]
    rw [Expr.nodes, List.filterMap_cons, hoperands]
    cases op with
    | divide =>
      rw [reducibleFractions, ofQuotient?]
      cases ofFraction? left right <;> rfl
    | _ => rfl

/-- The hint for two integers in a source. -/
theorem ofFraction?_num {v w : Binary64} {n d : Int} (hn : v.toInt? = some n)
    (hd : w.toInt? = some d) (hzero : d ≠ 0) (hgcd : 1 < Int.gcd n d) (above below : Span) :
    ofFraction? (.num v (some above)) (.num w (some below)) =
      some (.reducibleFraction (Int.gcd n d) above below) := by
  have hsize : Int.gcd (n.natAbs : Int) (d.natAbs : Int) = Int.gcd n d := rfl
  have hcond : (d.natAbs : Int) ≠ 0 ∧ 1 < (Int.gcd n d : Int) := by omega
  simp only [ofFraction?, Literal.size?, hn, hd, Option.map_some, Option.bind_eq_bind,
    Option.bind_some, hsize]
  exact if_pos hcond

/-- A node that is no quotient that can be reduced has no hint. -/
theorem ofQuotient?_eq_none (h : node.isReducible = false) : ofQuotient? node = none := by
  rw [Option.eq_none_iff_forall_ne_some]
  intro hint hhint
  cases node with
  | binary op left right s =>
    cases op with
    | divide =>
      obtain ⟨v, above, w, below, a, b, rfl, rfl, ha, hb, hzero, hgcd, -⟩ :=
        exists_of_ofFraction? hhint
      obtain ⟨n, hn, rfl⟩ := Option.map_eq_some_iff.mp ha
      obtain ⟨d, hd, rfl⟩ := Option.map_eq_some_iff.mp hb
      have hreducible : Expr.isReducible
          (.binary .divide (.num v (some above)) (.num w (some below)) s) = true :=
        Expr.isReducible_iff.mpr ⟨v, w, n, d, _, _, _, rfl, hn, hd, Int.natAbs_ne_zero.mp
          (Int.natCast_ne_zero.mp hzero), Int.ofNat_lt.mp hgcd⟩
      cases h.symm.trans hreducible
    | _ => cases hhint
  | _ => cases hhint

/-! ### What the hints say and show

What is highlighted begins where the numerator begins and ends where the denominator ends, which are
the ends of nodes. Stretches in two operands are therefore apart, as the operands are; and a
quotient that can be reduced has only numbers as operands, so no other one is in it. -/

/-- The hint for a quotient of two integers in a source: their greatest common divisor, and a
stretch of the source that reads as the quotient, as far to the left as the stretch begins. -/
def IsFractionHint (source : String) (node : Expr) (h : Hint) : Prop :=
  ∃ v w n d above below s,
    node = .binary .divide (.num v (some above)) (.num w (some below)) s ∧
    v.toInt? = some n ∧ w.toInt? = some d ∧ h = .reducibleFraction (Int.gcd n d) above below ∧
    ∃ a m, h.lineSpans = [a] ∧ Expr.parse (a.excerpt source) = .ok m ∧
      m.shift a.start = .join .divide (.num v (some above)) (.num w (some below))

/-- The hints for the fractions of an expression that was read from a source. -/
structure IsFractionReport (source : String) (e : Expr) (hints : List Hint) : Prop where
  /-- There is one for each quotient that can be reduced, and there are no others. -/
  entries : List.Forall₂ (IsFractionHint source) (e.nodes.filter Expr.isReducible) hints
  /-- What they highlight stands one behind the other, in their order. -/
  apart : (hints.flatMap lineSpans).Pairwise fun a b => a.stop ≤ b.start

end Hint

/-- **An operation on two leaves is what its excerpt reads as**, from the left operand to the right
one. -/
theorem Expr.exists_parse_excerpt_quotient {source : String} {e left right : Expr} {op : Operator}
    {s : Option Span} {above below : Span} (hparse : Expr.parse source = .ok e)
    (hn : .binary op left right s ∈ e.nodes) (hleft : left.nodes.tail = [])
    (hright : right.nodes.tail = []) (habove : left.span = some above)
    (hbelow : right.span = some below) :
    ∃ m, Expr.parse (Span.excerpt ⟨above.start, below.stop⟩ source) = .ok m ∧
      m.shift above.start = .join op left right := by
  obtain ⟨tokens, stop, hscan, htokens, hstop, -⟩ := Token.exists_scan_eq_append source
  have hderives := (Expr.parse_eq_ok_iff_derives hscan hstop).mp hparse
  obtain ⟨a, m, hspan, hm, hshift⟩ :=
    (hderives.hasSegment_of_leaves hleft hright s hn).exists_parse hscan htokens
  obtain rfl : ⟨above.start, below.stop⟩ = a :=
    Option.some.inj ((Expr.span_join habove hbelow op).symm.trans hspan)
  exact ⟨m, hm, hshift⟩

namespace Hint

variable {e node : Expr} {h : Hint} {source : String} {lo hi : Nat}

/-- **A quotient that can be reduced has its hint.** -/
theorem exists_isFractionHint (hparse : Expr.parse source = .ok e) (hnode : node ∈ e.nodes)
    (hreducible : node.isReducible = true) :
    ∃ h, ofQuotient? node = some h ∧ IsFractionHint source node h := by
  obtain ⟨v, w, n, d, s₁, s₂, s, rfl, hn, hd, hzero, hgcd⟩ := Expr.isReducible_iff.mp hreducible
  obtain ⟨-, -, -, -, -, above, below, habove, hbelow, -⟩ :=
    Expr.placed_of_mem_nodes_parse hparse _ hnode
  obtain rfl : s₁ = some above := habove
  obtain rfl : s₂ = some below := hbelow
  obtain ⟨m, hm, hshift⟩ :=
    Expr.exists_parse_excerpt_quotient hparse hnode rfl rfl rfl rfl
  exact ⟨_, ofFraction?_num hn hd hzero hgcd above below, v, w, n, d, above, below, s, rfl, hn, hd,
    rfl, _, m, rfl, hm, hshift⟩

/-- The two ends of what a fraction's hint highlights are those of nodes. -/
theorem exists_mem_nodes_of_mem_reducibleFractions (hh : h ∈ reducibleFractions e) :
    ∃ l r above below, l ∈ e.nodes ∧ r ∈ e.nodes ∧ l.span = some above ∧ r.span = some below ∧
      h.lineSpans = [⟨above.start, below.stop⟩] := by
  obtain ⟨left, right, s, hnode, hfraction⟩ := exists_of_mem_reducibleFractions hh
  obtain ⟨n, above, d, below, -, -, rfl, rfl, -, -, -, -, rfl⟩ := exists_of_ofFraction? hfraction
  have hoperands := Expr.nodes_subset_of_mem hnode
  exact ⟨_, _, above, below,
    hoperands (Expr.mem_nodes_binary_left (Expr.self_mem_nodes _) ..),
    hoperands (Expr.mem_nodes_binary_right (Expr.self_mem_nodes _) ..), rfl, rfl, rfl⟩

/-- What a hint highlights ends before what another one highlights begins. -/
def EndsBefore (g h : Hint) : Prop := ∀ a ∈ g.lineSpans, ∀ b ∈ h.lineSpans, a.stop ≤ b.start

/-- The hints in two operands highlight stretches one behind the other. -/
theorem pairwise_append_reducibleFractions {op : Operator} {left right : Expr} {s : Option Span}
    (hplaced : ∀ n ∈ (Expr.binary op left right s).nodes, n.Placed lo hi)
    (hleft : (reducibleFractions left).Pairwise EndsBefore)
    (hright : (reducibleFractions right).Pairwise EndsBefore) :
    (reducibleFractions left ++ reducibleFractions right).Pairwise EndsBefore := by
  refine List.pairwise_append.mpr ⟨hleft, hright, fun g hg h hh a ha b hb => ?_⟩
  obtain ⟨_, r, _, below, -, hr, -, hbelow, hgspans⟩ :=
    exists_mem_nodes_of_mem_reducibleFractions hg
  obtain ⟨l, _, above, _, hl, -, habove, -, hhspans⟩ :=
    exists_mem_nodes_of_mem_reducibleFractions hh
  rw [hgspans, List.mem_singleton] at ha
  rw [hhspans, List.mem_singleton] at hb
  subst ha hb
  obtain ⟨p, q, hp, hq, -, hpq⟩ := Expr.exists_before_of_mem_nodes hplaced hr hl
  obtain rfl := Option.some.inj (hbelow.symm.trans hp)
  obtain rfl := Option.some.inj (habove.symm.trans hq)
  exact hpq

/-- **Where spans are nested, the fractions stand one behind the other.** -/
theorem pairwise_reducibleFractions (hplaced : ∀ n ∈ e.nodes, n.Placed lo hi) :
    (reducibleFractions e).Pairwise EndsBefore := by
  induction e with
  | num | var => exact .nil
  | neg e s ih => exact ih (Expr.forall_mem_nodes_neg.mp hplaced).2
  | power base exponent s ih => exact ih (Expr.forall_mem_nodes_power.mp hplaced).2
  | binary op left right s ihl ihr =>
    obtain ⟨-, hleft, hright⟩ := Expr.forall_mem_nodes_binary.mp hplaced
    have hoperands := pairwise_append_reducibleFractions hplaced (ihl hleft) (ihr hright)
    cases op with
    | divide =>
      rw [reducibleFractions]
      cases hfraction : ofFraction? left right with
      | none => exact hoperands
      | some h =>
        -- the operands are numbers, in which there is nothing more to find
        obtain ⟨_, _, _, _, _, _, rfl, rfl, -⟩ := exists_of_ofFraction? hfraction
        exact List.pairwise_singleton ..
    | add | subtract | multiply => exact hoperands

/-- **The hints for the fractions of a source.** Each quotient of two integers in it, the divisor
other than zero, with a divisor above one in common has one hint, in the order of the quotients, and
there are no others. A hint tells the greatest common divisor. What it highlights reads as the
quotient of the two numbers, and no character is highlighted twice. -/
theorem isFractionReport_reducibleFractions (source : String) (e : Expr)
    (hparse : Expr.parse source = .ok e) :
    IsFractionReport source e (reducibleFractions e) where
  entries := by
    rw [reducibleFractions_eq_filterMap]
    exact forall₂_filter_filterMap (fun _ => exists_isFractionHint hparse)
      fun _ _ => ofQuotient?_eq_none
  apart := by
    refine List.pairwise_flatMap.mpr ⟨fun h hh => ?_, ?_⟩
    · obtain ⟨_, _, _, _, -, -, -, -, hspans⟩ := exists_mem_nodes_of_mem_reducibleFractions hh
      rw [hspans]
      exact List.pairwise_singleton ..
    · exact pairwise_reducibleFractions (Expr.placed_of_mem_nodes_parse hparse)

/-- The number six. -/
def six : Binary64 := .finite ⟨false, 3 * 2 ^ 51, 1024, by decide⟩

/-- The difference in `(2)/6-0/2`. -/
def zeroHalf : Expr :=
  .join .subtract
    (.join .divide (.num .two (some ⟨0, 3⟩)) (.num six (some ⟨4, 5⟩)))
    (.join .divide (.num (.finite .zero) (some ⟨6, 7⟩)) (.num .two (some ⟨8, 9⟩)))

/-- Of `(2)/6-0/2` both fractions can be reduced. -/
theorem isFractionReport_zeroHalf :
    Expr.parse "(2)/6-0/2" = .ok zeroHalf ∧
      IsFractionReport "(2)/6-0/2" zeroHalf
        [.reducibleFraction 2 ⟨0, 3⟩ ⟨4, 5⟩, .reducibleFraction 2 ⟨6, 7⟩ ⟨8, 9⟩] := by
  have hparse : Expr.parse "(2)/6-0/2" = .ok zeroHalf := by decide +kernel
  have hhints : reducibleFractions zeroHalf =
      [.reducibleFraction 2 ⟨0, 3⟩ ⟨4, 5⟩, .reducibleFraction 2 ⟨6, 7⟩ ⟨8, 9⟩] := by
    decide +kernel
  have hreport := isFractionReport_reducibleFractions _ _ hparse
  rw [hhints] at hreport
  exact ⟨hparse, hreport⟩

end Hint

end SchoolAlgebra
