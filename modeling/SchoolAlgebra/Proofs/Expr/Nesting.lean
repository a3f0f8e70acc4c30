import SchoolAlgebra.Proofs.Expr.Excerpt
import SchoolAlgebra.Proofs.Token.Order

/-!
# The spans of an expression are nested

In an expression that was read from a source every node has a span. It is not empty and lies in the
source, the spans of the operands lie in it, and of two operands the left one ends before the right
one begins.

Tokens are laid one behind the other, and a derivation takes a stretch of them apart into those of
the operands. So the proof goes along derivations, with the two offsets between which the tokens are
laid. A span need not begin and end with the tokens of its node: a base without a numeral behind its
caret keeps its span, and parentheses give the span of the group to the outermost node in it, while
the operands of that node keep theirs. Either way the node stays between the two offsets.

## Main definitions

* `Expr.Nests` — the operands of a node have their spans in a given one, in order
* `Expr.Placed` — a node nests its operands and lies between two offsets

## Main results

* `Derives.placed_of_mem_nodes` — every node of a derivation is placed where its tokens are laid
* `Expr.placed_of_mem_nodes_parse` — every node that is read from a source is placed in it
* `Expr.exists_within_of_mem_nodes` — the span of an expression reaches around all parts
* `Expr.exists_before_of_mem_nodes` — parts of a left operand stand before those of the right one
* `Expr.nests_of_mem_nodes_parse` — the spans of what is read from a source are nested
-/

namespace SchoolAlgebra

open Phrase Token

/-- The first span lies in the second one. -/
def Span.Within (a b : Span) : Prop := b.start ≤ a.start ∧ a.stop ≤ b.stop

theorem Span.Within.trans {a b c : Span} (hab : a.Within b) (hbc : b.Within c) : a.Within c :=
  ⟨Nat.le_trans hbc.1 hab.1, Nat.le_trans hab.2 hbc.2⟩

namespace Expr

/-! ### Operands in a span

Placing is stated for any two offsets around the node, so that it can be widened: a node that is
placed in a part of a stretch is placed in the stretch. Joining two placed operands is then the only
step that makes a new span. -/

/-- The operands of the node have spans in the given one, and a left operand ends no later than the
right one begins. -/
def Nests (a : Span) : Expr → Prop
  | .num .. | .var .. => True
  | .neg operand _ => ∃ b, operand.span = some b ∧ b.Within a
  | .power base _ _ => ∃ b, base.span = some b ∧ b.Within a
  | .binary _ left right _ => ∃ b c, left.span = some b ∧ right.span = some c ∧
      b.Within a ∧ c.Within a ∧ b.stop ≤ c.start

variable {e left right : Expr} {a b : Span} {lo hi lo' hi' : Nat}

theorem Nests.of_within (h : e.Nests a) (hab : a.Within b) : e.Nests b := by
  cases e with
  | num | var => trivial
  | neg operand s | power base x s =>
    obtain ⟨c, hc, hca⟩ := h
    exact ⟨c, hc, hca.trans hab⟩
  | binary op left right s =>
    obtain ⟨c, d, hc, hd, hca, hda, hapart⟩ := h
    exact ⟨c, d, hc, hd, hca.trans hab, hda.trans hab, hapart⟩

@[simp] theorem nests_withSpan (s : Option Span) (e : Expr) :
    (e.withSpan s).Nests a ↔ e.Nests a := by
  cases e <;> exact Iff.rfl

/-- The node has a span between two offsets, it is not empty, and the operands have theirs in it. -/
def Placed (lo hi : Nat) (e : Expr) : Prop :=
  ∃ a, e.span = some a ∧ lo ≤ a.start ∧ a.start < a.stop ∧ a.stop ≤ hi ∧ e.Nests a

theorem Placed.mono (h : e.Placed lo hi) (hlo : lo' ≤ lo) (hhi : hi ≤ hi') : e.Placed lo' hi' := by
  obtain ⟨a, hspan, hstart, hne, hstop, hnests⟩ := h
  exact ⟨a, hspan, Nat.le_trans hlo hstart, hne, Nat.le_trans hstop hhi, hnests⟩

/-- Two operands that are placed one behind the other are joined to a node around both. -/
theorem Placed.join {mid mid' : Nat} (hleft : left.Placed lo mid) (hmid : mid ≤ mid')
    (hright : right.Placed mid' hi) (op : Operator) : (Expr.join op left right).Placed lo hi := by
  obtain ⟨a, ha, hlo, hlt, hamid, -⟩ := hleft
  obtain ⟨b, hb, hbmid, hlt', hhi, -⟩ := hright
  have hstart : a.start ≤ b.start := by omega
  have hstop : a.stop ≤ b.stop := by omega
  exact ⟨⟨a.start, b.stop⟩, span_join ha hb op, hlo, hlt.trans_le hstop, hhi, a, b, ha, hb,
    ⟨Nat.le_refl _, hstop⟩, ⟨hstart, Nat.le_refl _⟩, by omega⟩

end Expr

/-! ### Derivations of laid tokens -/

variable {lo hi : Nat}

/-- The span of a base with an exponent begins with the base, and ends with it or between it and the
last offset of the exponent. -/
theorem Phrase.Exponent.exists_span_eq {x : Exponent} {us : List Token} {base : Expr} {a : Span}
    (hus : us.map Token.lexeme = x.lexemes) (hbase : base.span = some a) (ha : a.stop ≤ lo)
    (hlaid : Laid lo us hi) :
    ∃ stop, x.span base us = some ⟨a.start, stop⟩ ∧ a.stop ≤ stop ∧ stop ≤ hi := by
  cases hx : x.numeral?.isSome with
  | true =>
    obtain ⟨first, last, hstretch, hspan⟩ := Exponent.exists_stretch hx hus base
    obtain ⟨hstart, hroom, hstop⟩ := hlaid.of_mem (List.mem_of_getLast? hstretch.last_eq)
    have hlast := hroom.start_le_stop
    exact ⟨last.span.stop, by rw [hspan, Expr.start_of_span hbase], by omega, hstop⟩
  | false =>
    refine ⟨a.stop, ?_, Nat.le_refl _, ha.trans hlaid.le⟩
    rw [Exponent.span, hx, ← hbase]
    rfl

namespace Derives

variable {level : Level} {next : Lexeme} {ts : List Token} {e : Expr}

/-- The nodes of two operands and the node that joins them. -/
theorem placed_of_mem_nodes_join {us : List Token} {sign : Token} {left right : Expr}
    (hlaid : Laid lo (ts ++ sign :: us) hi)
    (hleft : ∀ hi, Laid lo ts hi → ∀ n ∈ left.nodes, n.Placed lo hi)
    (hright : ∀ lo, Laid lo us hi → ∀ n ∈ right.nodes, n.Placed lo hi) (op : Operator) :
    ∀ n ∈ (Expr.join op left right).nodes, n.Placed lo hi := by
  obtain ⟨mid, hts, hstart, hroom, hus⟩ := laid_append.mp hlaid
  have hmid : mid ≤ sign.span.stop := hstart.trans hroom.start_le_stop
  have hl := hleft mid hts
  have hr := hright _ hus
  refine Expr.forall_mem_nodes_binary.mpr ⟨?_, fun n hn => ?_, fun n hn => ?_⟩
  · exact (hl left left.self_mem_nodes).join hmid (hr right right.self_mem_nodes) op
  · exact (hl n hn).mono (Nat.le_refl _) (hmid.trans hus.le)
  · exact (hr n hn).mono (hts.le.trans hmid) (Nat.le_refl _)

/-- **Every node is placed between the offsets between which the tokens are laid.** -/
theorem placed_of_mem_nodes (h : Derives level next ts e) (hlaid : Laid lo ts hi) :
    ∀ n ∈ e.nodes, n.Placed lo hi := by
  induction h generalizing lo hi with
  | @number _ t _ _ ht =>
    intro n hn
    obtain rfl := List.mem_singleton.mp hn
    obtain ⟨hstart, hroom, hstop⟩ := hlaid
    have hne := hroom.start_lt_stop (isImplicitMultiply_of_ne (by simp [ht])) (by simp [ht])
    exact ⟨t.span, rfl, hstart, hne, hstop, trivial⟩
  | @name _ t _ ht =>
    intro n hn
    obtain rfl := List.mem_singleton.mp hn
    obtain ⟨hstart, hroom, hstop⟩ := hlaid
    have hne := hroom.start_lt_stop (isImplicitMultiply_of_ne (by simp [ht])) (by simp [ht])
    exact ⟨t.span, rfl, hstart, hne, hstop, trivial⟩
  | @group _ opening closing ts e hopening hclosing _ ih =>
    obtain ⟨hstart, hroom, hinner⟩ := hlaid
    obtain ⟨mid, hts, hmid, hroom', hstop⟩ := laid_append.mp hinner
    have hlt := hroom.start_lt_stop (isImplicitMultiply_of_ne (by simp [hopening]))
      (by simp [hopening])
    have hlt' := hroom'.start_lt_stop (isImplicitMultiply_of_ne (by simp [hclosing]))
      (by simp [hclosing])
    have hhi : closing.span.stop ≤ hi := hstop
    have hplaced := ih hts
    intro n hn
    rw [Expr.nodes_withSpan] at hn
    rcases List.mem_cons.mp hn with rfl | hn
    · obtain ⟨a, -, hlo, hne, hmid', hnests⟩ := hplaced e e.self_mem_nodes
      refine ⟨_, Expr.span_withSpan .., hstart, ?_, hhi, ?_⟩
      · simp only
        omega
      · have hwithin : a.Within ⟨opening.span.start, closing.span.stop⟩ := by
          constructor <;> simp only <;> omega
        exact (Expr.nests_withSpan ..).mpr (hnests.of_within hwithin)
    · exact (hplaced n (List.mem_of_mem_tail hn)).mono (by omega) (by omega)
  | plain _ _ ih | power _ ih | factor _ ih | term _ ih => exact ih hlaid
  | @raised _ caret ts us base x _ _ hus _ ih =>
    obtain ⟨mid, hts, hstart, hroom, hexponent⟩ := laid_append.mp hlaid
    have hmid : mid ≤ caret.span.stop := hstart.trans hroom.start_le_stop
    have hplaced := ih hts
    obtain ⟨a, ha, hlo, hne, hamid, -⟩ := hplaced base base.self_mem_nodes
    obtain ⟨stop, hspan, hastop, hstop⟩ :=
      Exponent.exists_span_eq hus ha (hamid.trans hmid) hexponent
    refine Expr.forall_mem_nodes_power.mpr ⟨?_, fun n hn => ?_⟩
    · exact ⟨_, hspan, hlo, hne.trans_le hastop, hstop, a, ha, Nat.le_refl _, hastop⟩
    · exact (hplaced n hn).mono (Nat.le_refl _) (hmid.trans hexponent.le)
  | @minus _ sign ts e hsign _ ih =>
    obtain ⟨hstart, hroom, hts⟩ := hlaid
    have hplaced := ih hts
    have hle := hroom.start_le_stop
    obtain ⟨a, ha, hlo, hne, hhi, -⟩ := hplaced e e.self_mem_nodes
    refine Expr.forall_mem_nodes_neg.mpr ⟨?_, fun n hn => ?_⟩
    · rw [Expr.stop_of_span ha]
      exact ⟨_, rfl, hstart, by simp only; omega, hhi, a, ha, by simp only; omega, Nat.le_refl _⟩
    · exact (hplaced n hn).mono (hstart.trans hle) (Nat.le_refl _)
  | product _ _ _ _ ihl ihr | addition _ _ _ _ ihl ihr =>
    exact placed_of_mem_nodes_join hlaid (fun _ => ihl) (fun _ => ihr) _

end Derives

namespace Expr

variable {source : String} {e : Expr} {a : Span}

/-- Every node of what is read from a source is placed in it. -/
theorem placed_of_mem_nodes_parse (hparse : parse source = .ok e) :
    ∀ n ∈ e.nodes, n.Placed 0 source.length := by
  obtain ⟨tokens, stop, hscan, -, hstop, -⟩ := Token.exists_scan_eq_append source
  have hderives := (parse_eq_ok_iff_derives hscan hstop).mp hparse
  obtain ⟨hi, hlaid, hend⟩ := laid_append.mp (hscan ▸ laid_scan source)
  exact fun n hn => (hderives.placed_of_mem_nodes hlaid n hn).mono (Nat.le_refl _) hend.le

/-- No part of a placed expression reaches out of its span. -/
theorem exists_within_of_mem_nodes (hplaced : ∀ n ∈ e.nodes, n.Placed lo hi)
    (ha : e.span = some a) :
    ∀ n ∈ e.nodes, ∃ b, n.span = some b ∧ b.start < b.stop ∧ b.Within a := by
  induction e generalizing a with
  | num | var =>
    intro n hn
    obtain rfl := List.mem_singleton.mp hn
    obtain ⟨b, hb, -, hne, -⟩ := hplaced _ hn
    obtain rfl := Option.some.inj (ha.symm.trans hb)
    exact ⟨a, ha, hne, Nat.le_refl _, Nat.le_refl _⟩
  | neg operand s ih | power operand exponent s ih =>
    obtain ⟨b, hb, -, hne, -, c, hc, hca⟩ := hplaced _ (self_mem_nodes _)
    obtain rfl := Option.some.inj (ha.symm.trans hb)
    intro n hn
    rcases List.mem_cons.mp hn with rfl | hn
    · exact ⟨a, ha, hne, Nat.le_refl _, Nat.le_refl _⟩
    · obtain ⟨d, hd, hlt, hdc⟩ := ih (fun n hn => hplaced n (List.mem_cons_of_mem _ hn)) hc n hn
      exact ⟨d, hd, hlt, hdc.trans hca⟩
  | binary op left right s ihl ihr =>
    obtain ⟨b, hb, -, hne, -, c, d, hc, hd, hca, hda, -⟩ := hplaced _ (self_mem_nodes _)
    obtain rfl := Option.some.inj (ha.symm.trans hb)
    obtain ⟨-, hleft, hright⟩ := forall_mem_nodes_binary.mp hplaced
    refine forall_mem_nodes_binary.mpr ⟨⟨a, ha, hne, Nat.le_refl _, Nat.le_refl _⟩, ?_, ?_⟩
    · intro n hn
      obtain ⟨p, hp, hlt, hpc⟩ := ihl hleft hc n hn
      exact ⟨p, hp, hlt, hpc.trans hca⟩
    · intro n hn
      obtain ⟨p, hp, hlt, hpd⟩ := ihr hright hd n hn
      exact ⟨p, hp, hlt, hpd.trans hda⟩

/-- The nodes of two operands of a placed expression stand one behind the other. -/
theorem exists_before_of_mem_nodes {op : Operator} {s : Option Span} {l r : Expr}
    (hplaced : ∀ n ∈ (binary op left right s).nodes, n.Placed lo hi) (hl : l ∈ left.nodes)
    (hr : r ∈ right.nodes) :
    ∃ p q, l.span = some p ∧ r.span = some q ∧ p.start < p.stop ∧ p.stop ≤ q.start := by
  obtain ⟨hself, hleft, hright⟩ := forall_mem_nodes_binary.mp hplaced
  obtain ⟨a, -, -, -, -, b, c, hb, hc, -, -, hbc⟩ := hself
  obtain ⟨p, hp, hlt, -, hpb⟩ := exists_within_of_mem_nodes hleft hb l hl
  obtain ⟨q, hq, -, hcq, -⟩ := exists_within_of_mem_nodes hright hc r hr
  exact ⟨p, q, hp, hq, hlt, hpb.trans (hbc.trans hcq)⟩

end Expr

/-- **The spans of what is read from a source are nested.** Every node of an expression that was
read from a source has a span in the source that is not empty, the spans of its operands lie in it,
and a left operand ends no later than the right one begins. -/
theorem Expr.nests_of_mem_nodes_parse (source : String) (e : Expr)
    (hparse : Expr.parse source = .ok e) :
    ∀ n ∈ e.nodes, ∃ a, n.span = some a ∧ a.start < a.stop ∧ a.stop ≤ source.length ∧
      n.Nests a := by
  intro n hn
  obtain ⟨tokens, stop, hscan, -, hstop, -⟩ := Token.exists_scan_eq_append source
  have hderives := (Expr.parse_eq_ok_iff_derives hscan hstop).mp hparse
  obtain ⟨hi, hlaid, hend⟩ := laid_append.mp (hscan ▸ laid_scan source)
  obtain ⟨a, hspan, -, hne, hhi, hnests⟩ := hderives.placed_of_mem_nodes hlaid n hn
  exact ⟨a, hspan, hne, hhi.trans hend.le, hnests⟩

/-- The product in `(x^)#*-2y`, with a caret without a numeral in parentheses, a character that is
passed over and an implied multiplication. -/
def Expr.looseProduct : Expr :=
  .join .multiply
    (.join .multiply (.power (.var "x" .one (some ⟨1, 2⟩)) .two (some ⟨0, 4⟩))
      (.neg (.num .two (some ⟨7, 8⟩)) (some ⟨6, 8⟩)))
    (.var "y" .one (some ⟨8, 9⟩))

/-- The spans in `(x^)#*-2y` are nested. -/
theorem Expr.nests_of_mem_nodes_looseProduct :
    Expr.parse "(x^)#*-2y" = .ok looseProduct ∧
      ∀ n ∈ looseProduct.nodes, ∃ a, n.span = some a ∧ a.start < a.stop ∧ a.stop ≤ 9 ∧
        n.Nests a := by
  have hparse : Expr.parse "(x^)#*-2y" = .ok looseProduct := by decide +kernel
  exact ⟨hparse, Expr.nests_of_mem_nodes_parse _ _ hparse⟩

end SchoolAlgebra
