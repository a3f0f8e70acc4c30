import Mathlib.Algebra.GCDMonoid.Nat
import SchoolAlgebra.Hint.CommonFactor
import SchoolAlgebra.Proofs.Expr.Nesting
import SchoolAlgebra.Proofs.Hint.Places

/-!
# The numbers of a denominator that a common factor covers

The hints for common factors come in two passes. The first reports the greatest common divisor of
all numbers, with every number of the denominator that it divides. The second goes through the
numbers of the denominator and reports those that divide a number of the numerator, each with its
own place alone, unless its factor has been reported before.

So every such number has its factor reported. Its place is shown only by the first pass, or if it is
the first number of its size: of two equal numbers the second pass reports one.

## The order of the second pass

A number is passed over if its factor was found before, and found before means in the first pass or
for an earlier number. Two numbers with the same factor have the same size, so what matters is
whether an earlier number has this size. The fold over the numbers is described by this, without the
list of what was found so far.

## Main results

* `dvd_gcdAll_iff` — the divisors of the greatest common divisor
* `Hint.mem_foldl_addNarrowFactor` — the second pass reports the first number of each size
* `Hint.commonFactors_cover_iff` — the numbers of the denominator whose places are shown
* `Hint.not_forall_commonFactors_cover` — not all are
-/

namespace SchoolAlgebra

/-! ### Greatest common divisors -/

theorem dvd_foldl_gcd_iff {d n : Int} {rest : List Int} :
    d ∣ rest.foldl (fun a b => (Int.gcd a b : Int)) n ↔ d ∣ n ∧ ∀ m ∈ rest, d ∣ m := by
  induction rest generalizing n with
  | nil => simp
  | cons m rest ih => rw [List.foldl_cons, ih, Int.dvd_coe_gcd_iff, List.forall_mem_cons, and_assoc]

theorem dvd_gcdAll_iff {d : Int} {ns : List Int} (h : ns ≠ []) :
    d ∣ gcdAll ns ↔ ∀ n ∈ ns, d ∣ n := by
  cases ns with
  | nil => exact absurd rfl h
  | cons n rest => rw [gcdAll, dvd_foldl_gcd_iff, List.forall_mem_cons]

theorem foldl_gcd_nonneg {n : Int} (hn : 0 ≤ n) (rest : List Int) :
    0 ≤ rest.foldl (fun a b => (Int.gcd a b : Int)) n := by
  induction rest generalizing n with
  | nil => exact hn
  | cons m rest ih => exact ih (Int.natCast_nonneg _)

theorem gcdAll_nonneg {ns : List Int} (h : ∀ n ∈ ns, 0 ≤ n) : 0 ≤ gcdAll ns := by
  cases ns with
  | nil => exact zero_le_one
  | cons n rest => exact foldl_gcd_nonneg (h n List.mem_cons_self) rest

/-- A natural number among others is their greatest common divisor exactly if it divides them. -/
theorem gcdAll_eq_iff {d : Int} {ns : List Int} (hns : ∀ n ∈ ns, 0 ≤ n) (hd : d ∈ ns) :
    gcdAll ns = d ↔ ∀ n ∈ ns, d ∣ n := by
  rw [← dvd_gcdAll_iff (List.ne_nil_of_mem hd)]
  refine ⟨fun h => h ▸ dvd_refl d, fun h => ?_⟩
  have hdvd : gcdAll ns ∣ d := (dvd_gcdAll_iff (List.ne_nil_of_mem hd)).mp (dvd_refl _) d hd
  exact Int.dvd_antisymm (gcdAll_nonneg hns) (hns d hd) hdvd h

/-! ### Sizes of numbers

A number has a size if it is an integer, and it is a multiple of a factor if its size is. Numbers of
an expression that was read from a source stand apart, so a span tells which of them is meant. -/

namespace Literal

variable {l : Literal} {factor k : Int}

theorem size?_nonneg (h : l.size? = some k) : 0 ≤ k := by
  obtain ⟨n, -, rfl⟩ := Option.map_eq_some_iff.mp h
  exact Int.natCast_nonneg _

theorem isMultipleOf_iff : l.isMultipleOf factor = true ↔ ∃ k, l.size? = some k ∧ factor ∣ k := by
  simp only [isMultipleOf, Option.any_eq_true, beq_iff_eq, Int.dvd_iff_emod_eq_zero]

/-- Among numbers there is a first one of each size. -/
theorem exists_first_of_size? {literals : List Literal} (hl : l ∈ literals)
    (hsize : l.size? = some k) :
    ∃ before m behind, literals = before ++ m :: behind ∧ m.size? = some k ∧
      ∀ l ∈ before, l.size? ≠ some k := by
  have hsome : (literals.find? (·.size? == some k)).isSome = true :=
    List.find?_isSome.mpr ⟨l, hl, by simp [hsize]⟩
  obtain ⟨m, hm⟩ := Option.isSome_iff_exists.mp hsome
  obtain ⟨hsize', before, behind, rfl, hbefore⟩ := List.find?_eq_some_iff_append.mp hm
  exact ⟨before, m, behind, rfl, by simpa using hsize', fun l hl => by simpa using hbefore l hl⟩

end Literal

namespace Expr

/-- A factor divides the size of some integer in the expression. -/
def HasMultipleOf (e : Expr) (factor : Int) : Prop :=
  ∃ l ∈ e.literals, ∃ k, l.size? = some k ∧ factor ∣ k

/-- A factor divides the size of every integer in the expression. -/
def AllMultiplesOf (e : Expr) (factor : Int) : Prop :=
  ∀ l ∈ e.literals, ∀ k, l.size? = some k → factor ∣ k

variable {e : Expr} {lo hi : Nat}

/-- The numbers of a placed expression stand one behind the other. -/
theorem pairwise_literals (hplaced : ∀ n ∈ e.nodes, n.Placed lo hi) :
    e.literals.Pairwise fun l m =>
      ∃ a b, l.span = some a ∧ m.span = some b ∧ a.start < a.stop ∧ a.stop ≤ b.start := by
  induction e with
  | num => exact List.pairwise_singleton ..
  | var => exact .nil
  | neg operand s ih | power operand exponent s ih =>
    exact ih fun n hn => hplaced n (List.mem_cons_of_mem _ hn)
  | binary op left right s ihl ihr =>
    obtain ⟨-, hleft, hright⟩ := forall_mem_nodes_binary.mp hplaced
    refine List.pairwise_append.mpr ⟨ihl hleft, ihr hright, fun l hl m hm => ?_⟩
    exact exists_before_of_mem_nodes hplaced (num_mem_nodes_of_mem_literals hl)
      (num_mem_nodes_of_mem_literals hm)

/-- Two numbers of a placed expression at the same place are the same occurrence. -/
theorem before_eq_of_span_eq {l m : Literal} {before before' behind behind' : List Literal}
    (hplaced : ∀ n ∈ e.nodes, n.Placed lo hi) (hl : e.literals = before ++ l :: behind)
    (hm : e.literals = before' ++ m :: behind') (hspan : l.span = m.span) : before = before' := by
  have hapart := pairwise_literals hplaced
  -- a number is not at the same place as one behind it
  have hne {l m : Literal} {before rest behind : List Literal}
      (h : e.literals = before ++ l :: (rest ++ m :: behind)) : l.span ≠ m.span := by
    intro hspan
    rw [h] at hapart
    obtain ⟨a, b, ha, hb, hlt, hle⟩ := List.rel_of_pairwise_cons
      (List.pairwise_append.mp hapart).2.1 (List.mem_append_right rest List.mem_cons_self)
    obtain rfl := Option.some.inj (ha.symm.trans (hspan.trans hb))
    omega
  rcases List.append_eq_append_iff.mp (hl.symm.trans hm) with ⟨as, rfl, has⟩ | ⟨as, rfl, has⟩
  · cases as with
    | nil => exact (List.append_nil _).symm
    | cons x as =>
      obtain ⟨rfl, rfl⟩ := List.cons.inj has
      exact absurd hspan (hne hl)
  · cases as with
    | nil => exact List.append_nil _
    | cons x as =>
      obtain ⟨rfl, rfl⟩ := List.cons.inj has
      exact absurd hspan.symm (hne hm)

end Expr

namespace Hint

/-! ### The second pass

Whether a number is reported depends on its size and on what was found before. By induction over the
numbers, a hint of the second pass belongs to the first number of its size whose factor was not
found already. -/

variable {numerator divisors : List Literal} {divisor : Literal} {factor : Int} {h : Hint}

theorem narrowFactor?_eq_some_iff :
    narrowFactor? numerator divisor = some (factor, h) ↔
      divisor.size? = some factor ∧ 1 < factor ∧ (∃ l ∈ numerator, l.isMultipleOf factor = true) ∧
        h = .commonFactor factor (Literal.spans (numerator.filter (Literal.isMultipleOf factor)))
          divisor.span.toList := by
  have hmultiples (k : Int) : (!(numerator.filter (Literal.isMultipleOf k)).isEmpty) = true ↔
      ∃ l ∈ numerator, l.isMultipleOf k = true := by
    simp [List.filter_eq_nil_iff]
  constructor
  · intro hnarrow
    obtain ⟨k, hk, hnarrow⟩ := Option.bind_eq_some_iff.mp hnarrow
    dsimp only at hnarrow
    split at hnarrow
    · next hcond =>
      obtain ⟨rfl, rfl⟩ := Prod.mk.inj (Option.some.inj hnarrow)
      rw [Bool.and_eq_true, decide_eq_true_eq, hmultiples] at hcond
      exact ⟨hk, hcond.1, hcond.2, rfl⟩
    · cases hnarrow
  · rintro ⟨hk, hfactor, hdivides, rfl⟩
    refine Option.bind_eq_some_iff.mpr ⟨factor, hk, ?_⟩
    dsimp only
    rw [if_pos]
    rw [Bool.and_eq_true, decide_eq_true_eq, hmultiples]
    exact ⟨hfactor, hdivides⟩

/-- Whether a number has a hint of its own depends on its size alone. -/
theorem exists_narrowFactor?_of_size? {l m : Literal} {k : Int}
    (hl : narrowFactor? numerator l = some (k, h)) (hm : m.size? = some k) :
    ∃ h', narrowFactor? numerator m = some (k, h') := by
  obtain ⟨-, hk, hdivides, -⟩ := narrowFactor?_eq_some_iff.mp hl
  exact ⟨_, narrowFactor?_eq_some_iff.mpr ⟨hm, hk, hdivides, rfl⟩⟩

theorem isAboutFactor_of_narrowFactor?
    (hnarrow : narrowFactor? numerator divisor = some (factor, h))
    (k : Int) : h.isAboutFactor k = (factor == k) := by
  obtain ⟨-, -, -, rfl⟩ := narrowFactor?_eq_some_iff.mp hnarrow
  rfl

theorem mem_addNarrowFactor {found : List Hint} :
    h ∈ addNarrowFactor numerator found divisor ↔ h ∈ found ∨
      ∃ factor, narrowFactor? numerator divisor = some (factor, h) ∧
        found.any (isAboutFactor factor) = false := by
  rw [addNarrowFactor]
  cases hnarrow : narrowFactor? numerator divisor with
  | none => simp
  | some narrow =>
    obtain ⟨factor, narrow⟩ := narrow
    simp only [Option.some.injEq, Prod.mk.injEq]
    by_cases hany : found.any (isAboutFactor factor) = true
    · rw [if_pos hany]
      refine ⟨.inl, ?_⟩
      rintro (hfound | ⟨other, ⟨rfl, rfl⟩, hnone⟩)
      · exact hfound
      · exact absurd (hany.symm.trans hnone) (by decide)
    · rw [if_neg hany, List.mem_append, List.mem_singleton]
      refine or_congr_right ⟨fun heq => ?_, ?_⟩
      · exact ⟨factor, ⟨rfl, heq.symm⟩, Bool.eq_false_of_not_eq_true hany⟩
      · rintro ⟨-, ⟨-, heq⟩, -⟩
        exact heq.symm

theorem any_addNarrowFactor_eq_false {found : List Hint} :
    (addNarrowFactor numerator found divisor).any (isAboutFactor factor) = false ↔
      found.any (isAboutFactor factor) = false ∧
        ∀ h, narrowFactor? numerator divisor ≠ some (factor, h) := by
  rw [addNarrowFactor]
  cases hnarrow : narrowFactor? numerator divisor with
  | none => simp
  | some found? =>
    obtain ⟨other, narrow⟩ := found?
    have habout := isAboutFactor_of_narrowFactor? hnarrow factor
    by_cases heq : other = factor
    · subst heq
      dsimp only
      split <;> simp_all
    · dsimp only
      split <;> simp_all

/-- **The second pass reports the first number of each size**, unless its factor was reported
before. -/
theorem mem_foldl_addNarrowFactor {found : List Hint} :
    h ∈ divisors.foldl (addNarrowFactor numerator) found ↔
      h ∈ found ∨ ∃ before divisor behind factor, divisors = before ++ divisor :: behind ∧
        narrowFactor? numerator divisor = some (factor, h) ∧
        found.any (isAboutFactor factor) = false ∧ ∀ l ∈ before, l.size? ≠ some factor := by
  induction divisors generalizing found with
  | nil => simp
  | cons first rest ih =>
    rw [List.foldl_cons, ih, mem_addNarrowFactor]
    constructor
    · rintro ((hfound | ⟨factor, hfirst, hany⟩) |
        ⟨before, divisor, behind, factor, rfl, hnarrow, hany, hbefore⟩)
      · exact .inl hfound
      · exact .inr ⟨[], first, rest, factor, rfl, hfirst, hany, List.forall_mem_nil _⟩
      · obtain ⟨hany, hfirst⟩ := any_addNarrowFactor_eq_false.mp hany
        refine .inr ⟨first :: before, divisor, behind, factor, rfl, hnarrow, hany,
          List.forall_mem_cons.mpr ⟨fun hsize => ?_, hbefore⟩⟩
        obtain ⟨narrow, hfirst'⟩ := exists_narrowFactor?_of_size? hnarrow hsize
        exact hfirst narrow hfirst'
    · rintro (hfound | ⟨before, divisor, behind, factor, hsplit, hnarrow, hany, hbefore⟩)
      · exact .inl (.inl hfound)
      · cases before with
        | nil =>
          obtain ⟨rfl, -⟩ := List.cons.inj hsplit
          exact .inl (.inr ⟨factor, hnarrow, hany⟩)
        | cons x before =>
          obtain ⟨rfl, rfl⟩ := List.cons.inj hsplit
          obtain ⟨hfirst, hbefore⟩ := List.forall_mem_cons.mp hbefore
          refine .inr ⟨before, divisor, behind, factor, rfl, hnarrow, ?_, hbefore⟩
          refine any_addNarrowFactor_eq_false.mpr ⟨hany, fun narrow hnarrow' => hfirst ?_⟩
          exact (narrowFactor?_eq_some_iff.mp hnarrow').1

/-! ### Both passes

The first pass has an entry exactly if the greatest common divisor is above one. A size that it
reports divides all integers of both sides, and conversely the only such size in the denominator is
the greatest common divisor. -/

variable {above below : Expr}

theorem mem_nonzeroSizes {literals : List Literal} {k : Int} :
    k ∈ nonzeroSizes literals ↔ (∃ l ∈ literals, l.size? = some k) ∧ k ≠ 0 := by
  simp [nonzeroSizes, List.mem_filterMap]

/-- The greatest common divisor of the nonzero integers of two expressions. -/
def sharedDivisor (above below : Expr) : Int :=
  gcdAll (nonzeroSizes above.literals ++ nonzeroSizes below.literals)

/-- The greatest common divisor of the numbers of two expressions is a given size exactly if that
divides all integers in them. -/
theorem sharedDivisor_eq_iff {l : Literal} (hl : l ∈ below.literals)
    (hsize : l.size? = some factor) (hne : factor ≠ 0) :
    sharedDivisor above below = factor ↔
      above.AllMultiplesOf factor ∧ below.AllMultiplesOf factor := by
  have hsizes (e : Expr) : (∀ k ∈ nonzeroSizes e.literals, factor ∣ k) ↔
      e.AllMultiplesOf factor := by
    refine ⟨fun h m hm k hk => ?_, fun h k hk => ?_⟩
    · rcases eq_or_ne k 0 with rfl | hk0
      · exact dvd_zero factor
      · exact h k (mem_nonzeroSizes.mpr ⟨⟨m, hm, hk⟩, hk0⟩)
    · obtain ⟨⟨m, hm, hk⟩, -⟩ := mem_nonzeroSizes.mp hk
      exact h m hm k hk
  have hnonneg : ∀ k ∈ nonzeroSizes above.literals ++ nonzeroSizes below.literals, 0 ≤ k := by
    intro k hk
    rcases List.mem_append.mp hk with hk | hk <;>
    · obtain ⟨⟨m, -, hm⟩, -⟩ := mem_nonzeroSizes.mp hk
      exact Literal.size?_nonneg hm
  have hmem : factor ∈ nonzeroSizes above.literals ++ nonzeroSizes below.literals :=
    List.mem_append_right _ (mem_nonzeroSizes.mpr ⟨⟨l, hl, hsize⟩, hne⟩)
  rw [sharedDivisor, gcdAll_eq_iff hnonneg hmem, List.forall_mem_append, hsizes, hsizes]

theorem sharedFactor?_eq_some_iff {n : Int} {numerator denominator : List Literal} :
    sharedFactor? n numerator denominator = some h ↔ 1 < n ∧
      h = .commonFactor n (Literal.spans (numerator.filter (Literal.isMultipleOf n)))
        (Literal.spans (denominator.filter (Literal.isMultipleOf n))) := by
  rw [sharedFactor?]
  split <;> simp_all [eq_comm]

theorem any_sharedFactor?_eq_false {n : Int} {numerator denominator : List Literal}
    (hfactor : 1 < factor) :
    (sharedFactor? n numerator denominator).toList.any (isAboutFactor factor) = false ↔
      n ≠ factor := by
  rw [sharedFactor?]
  split
  · simp [isAboutFactor]
  · simp only [Option.toList_none, List.any_nil, true_iff]
    omega

/-- **The hints for a common factor.** The greatest common divisor is reported with all numbers of
the denominator that it divides, any other factor with the first number of its size. -/
theorem commonFactor_mem_commonFactors {numeratorSpans denominatorSpans : List Span} :
    .commonFactor factor numeratorSpans denominatorSpans ∈ commonFactors above below ↔
      (nonzeroSizes above.literals ≠ [] ∧ nonzeroSizes below.literals ≠ []) ∧ 1 < factor ∧
        numeratorSpans = Literal.spans (above.literals.filter (Literal.isMultipleOf factor)) ∧
          (sharedDivisor above below = factor ∧
              denominatorSpans =
                Literal.spans (below.literals.filter (Literal.isMultipleOf factor)) ∨
            sharedDivisor above below ≠ factor ∧ above.HasMultipleOf factor ∧
              ∃ before divisor behind, below.literals = before ++ divisor :: behind ∧
                divisor.size? = some factor ∧ denominatorSpans = divisor.span.toList ∧
                  ∀ l ∈ before, l.size? ≠ some factor) := by
  unfold commonFactors
  dsimp only
  split
  · next hempty =>
    simp only [Bool.or_eq_true, List.isEmpty_iff] at hempty
    simp only [List.not_mem_nil, false_iff]
    rintro ⟨⟨habove, hbelow⟩, -⟩
    exact hempty.elim habove hbelow
  · next hnonempty =>
    simp only [Bool.or_eq_true, List.isEmpty_iff, not_or] at hnonempty
    simp only [hnonempty, ne_eq, not_false_eq_true, and_self, true_and]
    rw [mem_foldl_addNarrowFactor, Option.mem_toList, sharedFactor?_eq_some_iff]
    constructor
    · rintro (⟨hfactor, heq⟩ | ⟨before, divisor, behind, k, hsplit, hnarrow, hany, hbefore⟩)
      · obtain ⟨rfl, rfl, rfl⟩ := Hint.commonFactor.inj heq
        exact ⟨hfactor, rfl, .inl ⟨rfl, rfl⟩⟩
      · obtain ⟨hsize, hfactor, hdivides, heq⟩ := narrowFactor?_eq_some_iff.mp hnarrow
        obtain ⟨rfl, rfl, rfl⟩ := Hint.commonFactor.inj heq
        rw [any_sharedFactor?_eq_false hfactor] at hany
        simp only [Literal.isMultipleOf_iff] at hdivides
        exact ⟨hfactor, rfl, .inr ⟨hany, hdivides, before, divisor, behind, hsplit, hsize, rfl,
          hbefore⟩⟩
    · rintro ⟨hfactor, rfl, ⟨rfl, rfl⟩ | ⟨hne, hdivides, before, divisor, behind, hsplit, hsize,
        rfl, hbefore⟩⟩
      · exact .inl ⟨hfactor, rfl⟩
      · refine .inr ⟨before, divisor, behind, factor, hsplit, ?_,
          (any_sharedFactor?_eq_false hfactor).mpr hne, hbefore⟩
        simp only [Expr.HasMultipleOf, ← Literal.isMultipleOf_iff] at hdivides
        exact narrowFactor?_eq_some_iff.mpr ⟨hsize, hfactor, hdivides, rfl⟩

/-- **The numbers of the denominator that a common factor covers.** Let the numerator have a nonzero
integer, and let a number of the denominator, an integer of a size above one, divide an integer of
the numerator. Then its size is reported as a common factor. Its place is shown with it exactly if
the size divides all integers on both sides, or no number before it in the denominator is of that
size. -/
theorem commonFactors_cover_iff (source : String) (numerator denominator : Expr)
    (hparse : Expr.parse source = .ok denominator)
    (hnonzero : ∃ m ∈ numerator.literals, ∃ k, m.size? = some k ∧ k ≠ 0)
    (before behind : List Literal) (l : Literal)
    (hl : denominator.literals = before ++ l :: behind) (factor : Int)
    (hsize : l.size? = some factor) (hfactor : 1 < factor)
    (hdivides : numerator.HasMultipleOf factor) :
    (∃ above below, .commonFactor factor above below ∈ commonFactors numerator denominator) ∧
      ∃ a, l.span = some a ∧
        ((∃ above below, .commonFactor factor above below ∈ commonFactors numerator denominator ∧
            a ∈ below) ↔
          (numerator.AllMultiplesOf factor ∧ denominator.AllMultiplesOf factor) ∨
            ∀ m ∈ before, m.size? ≠ some factor) := by
  have hplaced := Expr.placed_of_mem_nodes_parse hparse
  have hmem : l ∈ denominator.literals := hl ▸ List.mem_append_right _ List.mem_cons_self
  obtain ⟨a, ha, -⟩ := hplaced _ (Expr.num_mem_nodes_of_mem_literals hmem)
  replace ha : l.span = some a := ha
  have hsizes : nonzeroSizes numerator.literals ≠ [] ∧ nonzeroSizes denominator.literals ≠ [] := by
    obtain ⟨m, hm, k, hk, hne⟩ := hnonzero
    exact ⟨List.ne_nil_of_mem (mem_nonzeroSizes.mpr ⟨⟨m, hm, hk⟩, hne⟩),
      List.ne_nil_of_mem (mem_nonzeroSizes.mpr ⟨⟨l, hmem, hsize⟩, by omega⟩)⟩
  have hshared : sharedDivisor numerator denominator = factor ↔
      numerator.AllMultiplesOf factor ∧ denominator.AllMultiplesOf factor :=
    sharedDivisor_eq_iff hmem hsize (by omega)
  refine ⟨?_, a, ha, ?_⟩
  · by_cases heq : sharedDivisor numerator denominator = factor
    · exact ⟨_, _, commonFactor_mem_commonFactors.mpr ⟨hsizes, hfactor, rfl, .inl ⟨heq, rfl⟩⟩⟩
    · obtain ⟨before', divisor, behind', hsplit, hdivisor, hbefore⟩ :=
        Literal.exists_first_of_size? hmem hsize
      exact ⟨_, _, commonFactor_mem_commonFactors.mpr ⟨hsizes, hfactor, rfl,
        .inr ⟨heq, hdivides, before', divisor, behind', hsplit, hdivisor, rfl, hbefore⟩⟩⟩
  · rw [← hshared]
    constructor
    · rintro ⟨above, below, hhint, hbelow⟩
      obtain ⟨-, -, -, ⟨heq, -⟩ | ⟨-, -, before', divisor, behind', hsplit, -, rfl, hbefore⟩⟩ :=
        commonFactor_mem_commonFactors.mp hhint
      · exact .inl heq
      · have hspan : l.span = divisor.span := ha.trans (Option.mem_toList.mp hbelow).symm
        obtain rfl := Expr.before_eq_of_span_eq hplaced hl hsplit hspan
        exact .inr hbefore
    · intro hcase
      by_cases heq : sharedDivisor numerator denominator = factor
      · have hmultiple : l.isMultipleOf factor = true :=
          Literal.isMultipleOf_iff.mpr ⟨factor, hsize, dvd_refl factor⟩
        refine ⟨_, _, commonFactor_mem_commonFactors.mpr ⟨hsizes, hfactor, rfl,
          .inl ⟨heq, rfl⟩⟩, ?_⟩
        exact List.mem_filterMap.mpr ⟨l, List.mem_filter.mpr ⟨hmem, hmultiple⟩, ha⟩
      · refine ⟨_, _, commonFactor_mem_commonFactors.mpr ⟨hsizes, hfactor, rfl,
          .inr ⟨heq, hdivides, before, l, behind, hl, hsize, rfl, hcase.resolve_left heq⟩⟩, ?_⟩
        exact Option.mem_toList.mpr ha

/-- The number two, as it is read from the source `2`. -/
def loneTwo : Expr := .num .two (some ⟨0, 1⟩)

/-- The product `2*1*2`. -/
def repeatedTwo : Expr :=
  .join .multiply (.join .multiply (.num .two (some ⟨0, 1⟩)) (.num .one (some ⟨2, 3⟩)))
    (.num .two (some ⟨4, 5⟩))

theorem parse_loneTwo : Expr.parse "2" = .ok loneTwo := by decide +kernel

theorem parse_repeatedTwo : Expr.parse "2*1*2" = .ok repeatedTwo := by decide +kernel

theorem hasMultipleOf_loneTwo : loneTwo.HasMultipleOf 2 :=
  ⟨⟨.two, some ⟨0, 1⟩⟩, by decide +kernel, 2, by decide +kernel, dvd_refl 2⟩

theorem exists_nonzero_loneTwo : ∃ m ∈ loneTwo.literals, ∃ k, m.size? = some k ∧ k ≠ 0 :=
  ⟨⟨.two, some ⟨0, 1⟩⟩, by decide +kernel, 2, by decide +kernel, by decide⟩

/-- Of `2` over `2*1*2` the factor two is reported, but not with the second of its two places. -/
theorem commonFactors_cover_repeatedTwo :
    (Expr.parse "2*1*2" = .ok repeatedTwo ∧
      (∃ m ∈ loneTwo.literals, ∃ k, m.size? = some k ∧ k ≠ 0) ∧
      repeatedTwo.literals =
        [⟨.two, some ⟨0, 1⟩⟩, ⟨.one, some ⟨2, 3⟩⟩] ++ ⟨.two, some ⟨4, 5⟩⟩ :: [] ∧
      Literal.size? ⟨.two, some ⟨4, 5⟩⟩ = some 2 ∧ (1 : Int) < 2 ∧ loneTwo.HasMultipleOf 2) ∧
    (∃ above below, .commonFactor 2 above below ∈ commonFactors loneTwo repeatedTwo) ∧
    ¬ ∃ above below, .commonFactor 2 above below ∈ commonFactors loneTwo repeatedTwo ∧
      ⟨4, 5⟩ ∈ below := by
  have hsize : Literal.size? ⟨.two, some ⟨4, 5⟩⟩ = some 2 := by decide +kernel
  obtain ⟨hreported, a, ha, hcovered⟩ := commonFactors_cover_iff "2*1*2" loneTwo repeatedTwo
    parse_repeatedTwo exists_nonzero_loneTwo _ [] ⟨.two, some ⟨4, 5⟩⟩ rfl 2 hsize (by decide)
    hasMultipleOf_loneTwo
  refine ⟨⟨parse_repeatedTwo, exists_nonzero_loneTwo, rfl, hsize, by decide,
    hasMultipleOf_loneTwo⟩, hreported, ?_⟩
  obtain rfl := Option.some.inj ha
  rw [hcovered]
  rintro (⟨-, hall⟩ | hfirst)
  · -- the two does not divide the one between
    have hone := hall ⟨.one, some ⟨2, 3⟩⟩ (by decide +kernel) 1 (by decide +kernel)
    omega
  · exact hfirst ⟨.two, some ⟨0, 1⟩⟩ List.mem_cons_self (by decide +kernel)

/-- It is not so that every number of the denominator that divides one of the numerator is shown
with its factor. -/
theorem not_forall_commonFactors_cover :
    ¬ ∀ (source denominatorSource : String) (numerator denominator : Expr),
      Expr.parse source = .ok numerator → Expr.parse denominatorSource = .ok denominator →
      (∃ m ∈ numerator.literals, ∃ k, m.size? = some k ∧ k ≠ 0) →
      (∃ m ∈ denominator.literals, ∃ k, m.size? = some k ∧ k ≠ 0) →
      ∀ l ∈ denominator.literals, ∀ factor, l.size? = some factor → 1 < factor →
        numerator.HasMultipleOf factor → ∀ a, l.span = some a →
          ∃ above below, .commonFactor factor above below ∈ commonFactors numerator denominator ∧
            a ∈ below := by
  intro hall
  obtain ⟨above, below, hhint, hbelow⟩ := hall "2" "2*1*2" loneTwo repeatedTwo parse_loneTwo
    parse_repeatedTwo exists_nonzero_loneTwo
    ⟨⟨.two, some ⟨0, 1⟩⟩, by decide +kernel, 2, by decide +kernel, by decide⟩
    ⟨.two, some ⟨4, 5⟩⟩ (by decide +kernel) 2 (by decide +kernel) (by decide)
    hasMultipleOf_loneTwo ⟨4, 5⟩ rfl
  have hhints : commonFactors loneTwo repeatedTwo = [.commonFactor 2 [⟨0, 1⟩] [⟨0, 1⟩]] := by
    decide +kernel
  rw [hhints, List.mem_singleton] at hhint
  obtain ⟨-, -, rfl⟩ := Hint.commonFactor.inj hhint
  exact absurd hbelow (by decide)

end Hint

end SchoolAlgebra
