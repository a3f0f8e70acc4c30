import SchoolAlgebra.Proofs.Expr.Excerpt
import SchoolAlgebra.Proofs.Hint.Factors

/-!
# What a report of common factors says

Each entry names a factor above one with the integers that it divides: all of them in the numerator,
at least one in the denominator. The places that are shown can be cut out of the sources and read
again, one number each. No factor is reported twice.

If both sides have an integer other than zero, the greatest common divisor of all of them is
reported first, unless it is one, and every other factor is a proper multiple of it. If a side has
none there is nothing to report.

The first pass reports one entry at most. The second pass begins with what the first has found and
has each factor once; both are shown for one number of the denominator and then for all.

## Stated without the two passes

The report is described by the integers of the two expressions and not by how it is found:
`Expr.IntegerAt` says that an integer stands at a place, and multiples, greatest common divisors and
the text at a span are said in terms of it. Which of the multiples in the denominator are shown with
a factor other than the greatest common divisor is not part of it; that is the subject of
`SchoolAlgebra.Proofs.Hint.Factors`.

## Main definitions

* `Expr.IntegerAt` — an integer stands at a place in an expression
* `Expr.MultiplesAt` — the places of the integers that a factor divides, in order
* `Hint.IsFactorReport` — what the entries for common factors say

## Main results

* `Hint.nodup_foldl_addNarrowFactor` — the second pass reports no factor twice
* `Hint.sharedDivisor_dvd` — every factor is a multiple of the greatest common divisor
* `Hint.isFactorReport_commonFactors` — the report on two sources
-/

namespace SchoolAlgebra

/-! ### Integers and their places

Among the numbers of an expression those count that are integers, zero included: zero is a multiple
of every factor, but it has no part in the greatest common divisor. -/

namespace Expr

/-- An integer stands at a place in the expression. -/
def IntegerAt (e : Expr) (k : Int) (s : Option Span) : Prop :=
  ∃ v, .num v s ∈ e.nodes ∧ v.toInt? = some k

/-- Some number in the expression is an integer other than zero. -/
def HasNonzeroInteger (e : Expr) : Prop := ∃ k s, e.IntegerAt k s ∧ k ≠ 0

/-- The spans are those of the integers in the expression that a factor divides, from left to
right. -/
structure MultiplesAt (e : Expr) (factor : Int) (spans : List Span) : Prop where
  /-- Each one ends before the next one begins, and has a character, so none is there twice. -/
  pairwise : spans.Pairwise fun a b => a.start < a.stop ∧ a.stop ≤ b.start
  /-- All multiples of the factor are there, zero included, and nothing else. -/
  mem_iff : ∀ a, a ∈ spans ↔ ∃ k, e.IntegerAt k (some a) ∧ factor ∣ k

variable {e : Expr} {k factor : Int} {s : Option Span} {lo hi : Nat}

theorem mem_literals_iff {l : Literal} : l ∈ e.literals ↔ .num l.value l.span ∈ e.nodes := by
  refine ⟨num_mem_nodes_of_mem_literals, fun h => ?_⟩
  induction e with
  | num v s =>
    obtain ⟨rfl, rfl⟩ := Expr.num.inj (List.mem_singleton.mp h)
    exact List.mem_singleton_self _
  | var => cases List.mem_singleton.mp h
  | neg operand s ih | power base exponent s ih =>
    rcases List.mem_cons.mp h with h | h
    · cases h
    · exact ih h
  | binary op left right s ihl ihr =>
    rcases List.mem_cons.mp h with h | h
    · cases h
    · rcases List.mem_append.mp h with h | h
      · exact List.mem_append_left _ (ihl h)
      · exact List.mem_append_right _ (ihr h)

/-- A number that a factor divides is an integer at its place. -/
theorem exists_integerAt_iff :
    (∃ k, e.IntegerAt k s ∧ factor ∣ k) ↔
      ∃ l ∈ e.literals, l.span = s ∧ l.isMultipleOf factor = true := by
  have hmultiple (l : Literal) :
      l.isMultipleOf factor = true ↔ ∃ k, l.value.toInt? = some k ∧ factor ∣ k := by
    rw [Literal.isMultipleOf_iff]
    constructor
    · rintro ⟨size, hsize, hdvd⟩
      obtain ⟨k, hk, rfl⟩ := Option.map_eq_some_iff.mp hsize
      exact ⟨k, hk, Int.dvd_natAbs.mp hdvd⟩
    · rintro ⟨k, hk, hdvd⟩
      exact ⟨k.natAbs, Option.map_eq_some_iff.mpr ⟨k, hk, rfl⟩, Int.dvd_natAbs.mpr hdvd⟩
  constructor
  · rintro ⟨k, ⟨v, hv, hk⟩, hdvd⟩
    exact ⟨⟨v, s⟩, mem_literals_iff.mpr hv, rfl, (hmultiple _).mpr ⟨k, hk, hdvd⟩⟩
  · rintro ⟨l, hl, rfl, hl'⟩
    obtain ⟨k, hk, hdvd⟩ := (hmultiple l).mp hl'
    exact ⟨k, ⟨l.value, mem_literals_iff.mp hl, hk⟩, hdvd⟩

/-- The sizes of which the greatest common divisor is taken. -/
theorem mem_nonzeroSizes_iff {n : Int} :
    n ∈ Hint.nonzeroSizes e.literals ↔ ∃ k s, e.IntegerAt k s ∧ k ≠ 0 ∧ (k.natAbs : Int) = n := by
  rw [Hint.mem_nonzeroSizes]
  constructor
  · rintro ⟨⟨l, hl, hsize⟩, hne⟩
    obtain ⟨k, hk, rfl⟩ := Option.map_eq_some_iff.mp hsize
    exact ⟨k, l.span, ⟨l.value, mem_literals_iff.mp hl, hk⟩, by omega, rfl⟩
  · rintro ⟨k, s, ⟨v, hv, hk⟩, hne, rfl⟩
    refine ⟨⟨⟨v, s⟩, mem_literals_iff.mpr hv, ?_⟩, by omega⟩
    exact Option.map_eq_some_iff.mpr ⟨k, hk, rfl⟩

theorem nonzeroSizes_ne_nil_iff : Hint.nonzeroSizes e.literals ≠ [] ↔ e.HasNonzeroInteger := by
  constructor
  · intro hne
    obtain ⟨n, hn⟩ := List.exists_mem_of_ne_nil _ hne
    obtain ⟨k, s, hk, hk0, -⟩ := mem_nonzeroSizes_iff.mp hn
    exact ⟨k, s, hk, hk0⟩
  · rintro ⟨k, s, hk, hk0⟩
    exact List.ne_nil_of_mem (mem_nonzeroSizes_iff.mpr ⟨k, s, hk, hk0, rfl⟩)

/-- The multiples of a factor among the numbers of a placed expression. -/
theorem multiplesAt_spans (hplaced : ∀ n ∈ e.nodes, n.Placed lo hi) (factor : Int) :
    e.MultiplesAt factor
      (Literal.spans (e.literals.filter (Literal.isMultipleOf factor))) := by
  constructor
  · refine List.pairwise_filterMap.mpr (((pairwise_literals hplaced).filter _).imp ?_)
    rintro l m ⟨a, b, ha, hb, hab⟩ a' ha' b' hb'
    obtain rfl := Option.some.inj (ha.symm.trans ha')
    obtain rfl := Option.some.inj (hb.symm.trans hb')
    exact hab
  · intro a
    rw [exists_integerAt_iff, Literal.spans, List.mem_filterMap]
    simp only [List.mem_filter]
    exact exists_congr fun l => by tauto

theorem IntegerAt.exists_span (h : e.IntegerAt k s) (hplaced : ∀ n ∈ e.nodes, n.Placed lo hi) :
    ∃ a, s = some a := by
  obtain ⟨v, hv, -⟩ := h
  obtain ⟨a, ha, -⟩ := hplaced _ hv
  exact ⟨a, ha⟩

theorem MultiplesAt.ne_nil {spans : List Span} (h : e.MultiplesAt factor spans)
    (hplaced : ∀ n ∈ e.nodes, n.Placed lo hi) (hk : e.IntegerAt k s) (hdvd : factor ∣ k) :
    spans ≠ [] := by
  obtain ⟨a, rfl⟩ := hk.exists_span hplaced
  exact List.ne_nil_of_mem ((h.mem_iff a).mpr ⟨k, hk, hdvd⟩)

/-- The greatest common divisor of the integers other than zero in two expressions. -/
def IsGreatestDivisor (g : Int) (above below : Expr) : Prop :=
  0 < g ∧ ∀ d, d ∣ g ↔ ∀ k s, above.IntegerAt k s ∨ below.IntegerAt k s → k ≠ 0 → d ∣ k

theorem IsGreatestDivisor.dvd {g : Int} {above below : Expr} (h : IsGreatestDivisor g above below)
    (hk : above.IntegerAt k s ∨ below.IntegerAt k s) (hk0 : k ≠ 0) : g ∣ k :=
  (h.2 g).mp (dvd_refl g) k s hk hk0

end Expr

/-- The text at a span reads as one number, an integer that a factor divides. -/
def Span.ReadsAsMultiple (a : Span) (source : String) (factor : Int) : Prop :=
  ∃ v s k, Expr.parse (a.excerpt source) = .ok (.num v s) ∧ v.toInt? = some k ∧ factor ∣ k

/-- An integer that was read from a source can be cut out and read again. -/
theorem Expr.IntegerAt.readsAsMultiple {source : String} {e : Expr} {k factor : Int} {a : Span}
    (h : e.IntegerAt k (some a)) (hparse : Expr.parse source = .ok e) (hdvd : factor ∣ k) :
    a.ReadsAsMultiple source factor := by
  obtain ⟨v, hv, hk⟩ := h
  obtain ⟨b, s, hb, hexcerpt⟩ := Expr.exists_parse_excerpt_num hparse hv
  obtain rfl := Option.some.inj hb
  exact ⟨v, s, k, hexcerpt, hk, hdvd⟩

namespace Hint

variable {numerator divisors : List Literal} {divisor : Literal} {found : List Hint} {h : Hint}
  {factor : Int} {above below : Expr}

/-! ### No factor twice

The second pass adds to what was found before, one hint for each new factor. So what was found first
stays in front, and the factors are without repetition if they were so before. -/

/-- The factor that a hint is about. -/
def factor? : Hint → Option Int
  | .commonFactor factor .. => some factor
  | _ => none

theorem isAboutFactor_iff : h.isAboutFactor factor = true ↔ h.factor? = some factor := by
  cases h <;> simp [isAboutFactor, factor?]

theorem any_isAboutFactor_iff :
    found.any (isAboutFactor factor) = true ↔ factor ∈ found.filterMap factor? := by
  simp [List.any_eq_true, isAboutFactor_iff]

/-- What is reported for a number of the denominator is put behind what was found before. -/
theorem addNarrowFactor_eq (numerator : List Literal) (found : List Hint) (divisor : Literal) :
    addNarrowFactor numerator found divisor = found ∨
      ∃ factor h, narrowFactor? numerator divisor = some (factor, h) ∧
        factor ∉ found.filterMap factor? ∧
          addNarrowFactor numerator found divisor = found ++ [h] := by
  rw [addNarrowFactor]
  split
  · exact .inl rfl
  · next factor h hnarrow =>
    split
    · exact .inl rfl
    · next hany => exact .inr ⟨factor, h, hnarrow, any_isAboutFactor_iff.not.mp hany, rfl⟩

theorem prefix_foldl_addNarrowFactor (numerator divisors : List Literal) (found : List Hint) :
    found <+: divisors.foldl (addNarrowFactor numerator) found := by
  induction divisors generalizing found with
  | nil => exact List.prefix_rfl
  | cons divisor divisors ih =>
    refine List.IsPrefix.trans ?_ (ih _)
    obtain heq | ⟨factor, h, -, -, heq⟩ := addNarrowFactor_eq numerator found divisor
    · rw [heq]
    · rw [heq]
      exact List.prefix_append found [h]

theorem nodup_addNarrowFactor (hfound : (found.filterMap factor?).Nodup) :
    ((addNarrowFactor numerator found divisor).filterMap factor?).Nodup := by
  obtain heq | ⟨factor, h, hnarrow, hnew, heq⟩ := addNarrowFactor_eq numerator found divisor
  · rwa [heq]
  · have hfactor : h.factor? = some factor := by
      rw [← isAboutFactor_iff, isAboutFactor_of_narrowFactor? hnarrow, beq_self_eq_true]
    rw [heq, List.filterMap_append, List.filterMap_cons_some hfactor, List.filterMap_nil]
    refine List.nodup_append.mpr ⟨hfound, List.nodup_singleton factor, ?_⟩
    rintro k hk _ hfactor rfl
    exact hnew (List.mem_singleton.mp hfactor ▸ hk)

/-- **The second pass reports no factor twice.** -/
theorem nodup_foldl_addNarrowFactor (hfound : (found.filterMap factor?).Nodup) :
    ((divisors.foldl (addNarrowFactor numerator) found).filterMap factor?).Nodup := by
  induction divisors generalizing found with
  | nil => exact hfound
  | cons divisor divisors ih => exact ih (nodup_addNarrowFactor hfound)

/-! ### The greatest common divisor -/

theorem isGreatestDivisor_sharedDivisor {above : Expr} (below : Expr)
    (habove : above.HasNonzeroInteger) :
    Expr.IsGreatestDivisor (sharedDivisor above below) above below := by
  have hne : nonzeroSizes above.literals ++ nonzeroSizes below.literals ≠ [] :=
    List.append_ne_nil_of_left_ne_nil (Expr.nonzeroSizes_ne_nil_iff.mpr habove) _
  have hdvd (d : Int) : d ∣ sharedDivisor above below ↔
      ∀ k s, above.IntegerAt k s ∨ below.IntegerAt k s → k ≠ 0 → d ∣ k := by
    rw [sharedDivisor, dvd_gcdAll_iff hne]
    simp only [List.mem_append, Expr.mem_nonzeroSizes_iff]
    constructor
    · rintro hall k s (hk | hk) hk0
      · exact Int.dvd_natAbs.mp (hall _ (.inl ⟨k, s, hk, hk0, rfl⟩))
      · exact Int.dvd_natAbs.mp (hall _ (.inr ⟨k, s, hk, hk0, rfl⟩))
    · rintro hall n (⟨k, s, hk, hk0, rfl⟩ | ⟨k, s, hk, hk0, rfl⟩)
      · exact Int.dvd_natAbs.mpr (hall k s (.inl hk) hk0)
      · exact Int.dvd_natAbs.mpr (hall k s (.inr hk) hk0)
  refine ⟨?_, hdvd⟩
  have hnonneg : 0 ≤ sharedDivisor above below := by
    refine gcdAll_nonneg fun n hn => ?_
    rcases List.mem_append.mp hn with hn | hn <;>
    · obtain ⟨k, s, -, -, rfl⟩ := Expr.mem_nonzeroSizes_iff.mp hn
      exact Int.natCast_nonneg _
  -- it is not zero, because zero divides nothing else
  obtain ⟨k, s, hk, hk0⟩ := habove
  have hk' := (hdvd _).mp (dvd_refl _) k s (.inl hk) hk0
  refine hnonneg.lt_of_ne fun hzero => hk0 ?_
  rwa [← hzero, zero_dvd_iff] at hk'

/-! ### The entries

Whichever pass an entry comes from, its factor is above one and divides what is shown. In the second
pass the factor is itself the size of a number of the denominator, and so a multiple of the greatest
common divisor. -/

theorem commonFactors_eq_nil (h : ¬ (above.HasNonzeroInteger ∧ below.HasNonzeroInteger)) :
    commonFactors above below = [] := by
  rw [← Expr.nonzeroSizes_ne_nil_iff, ← Expr.nonzeroSizes_ne_nil_iff] at h
  refine if_pos ?_
  simp only [Bool.or_eq_true, List.isEmpty_iff]
  tauto

theorem commonFactors_eq_foldl (habove : above.HasNonzeroInteger)
    (hbelow : below.HasNonzeroInteger) :
    commonFactors above below = below.literals.foldl (addNarrowFactor above.literals)
      (sharedFactor? (sharedDivisor above below) above.literals below.literals).toList := by
  refine if_neg ?_
  simp only [Bool.or_eq_true, List.isEmpty_iff, not_or]
  exact ⟨Expr.nonzeroSizes_ne_nil_iff.mpr habove, Expr.nonzeroSizes_ne_nil_iff.mpr hbelow⟩

theorem exists_eq_commonFactor (hh : h ∈ commonFactors above below) :
    ∃ factor as bs, h = .commonFactor factor as bs := by
  by_cases hsides : above.HasNonzeroInteger ∧ below.HasNonzeroInteger
  · rw [commonFactors_eq_foldl hsides.1 hsides.2, mem_foldl_addNarrowFactor] at hh
    obtain hshared | ⟨-, divisor, -, factor, -, hnarrow, -⟩ := hh
    · obtain ⟨-, rfl⟩ := sharedFactor?_eq_some_iff.mp (Option.mem_toList.mp hshared)
      exact ⟨_, _, _, rfl⟩
    · obtain ⟨-, -, -, rfl⟩ := narrowFactor?_eq_some_iff.mp hnarrow
      exact ⟨_, _, _, rfl⟩
  · rw [commonFactors_eq_nil hsides] at hh
    cases hh

/-- **Every factor is a multiple of the greatest common divisor.** -/
theorem sharedDivisor_dvd {as bs : List Span}
    (hh : .commonFactor factor as bs ∈ commonFactors above below) :
    sharedDivisor above below ∣ factor := by
  obtain ⟨⟨habove, -⟩, hfactor, -, ⟨rfl, -⟩ | ⟨-, -, before, divisor, behind, hsplit, hsize, -⟩⟩ :=
    commonFactor_mem_commonFactors.mp hh
  · exact dvd_refl _
  · refine (dvd_gcdAll_iff (List.append_ne_nil_of_left_ne_nil habove _)).mp (dvd_refl _) factor ?_
    refine List.mem_append_right _ (mem_nonzeroSizes.mpr ⟨⟨divisor, ?_, hsize⟩, by omega⟩)
    exact hsplit ▸ List.mem_append_right _ List.mem_cons_self

section Placed

variable {lo hi lo' hi' : Nat} (habove : ∀ n ∈ above.nodes, n.Placed lo hi)
  (hbelow : ∀ n ∈ below.nodes, n.Placed lo' hi')

include habove

/-- The numerator's share of an entry: every integer that the factor divides, and there are some. -/
theorem multiplesAt_of_commonFactor_mem {as bs : List Span}
    (hh : .commonFactor factor as bs ∈ commonFactors above below) :
    above.MultiplesAt factor as ∧ as ≠ [] := by
  obtain ⟨⟨hne, -⟩, -, rfl, hfactor⟩ := commonFactor_mem_commonFactors.mp hh
  have hmultiples := Expr.multiplesAt_spans habove factor
  refine ⟨hmultiples, ?_⟩
  obtain ⟨rfl, -⟩ | ⟨-, ⟨l, hl, hdivides⟩, -⟩ := hfactor
  · have hnonzero := Expr.nonzeroSizes_ne_nil_iff.mp hne
    have hgreatest := isGreatestDivisor_sharedDivisor below hnonzero
    obtain ⟨k, s, hk, hk0⟩ := hnonzero
    exact hmultiples.ne_nil habove hk (hgreatest.dvd (.inl hk) hk0)
  · obtain ⟨k, hk, hdvd⟩ :=
      Expr.exists_integerAt_iff.mpr ⟨l, hl, rfl, Literal.isMultipleOf_iff.mpr hdivides⟩
    exact hmultiples.ne_nil habove hk hdvd

omit habove
include hbelow

/-- The denominator's share of the entry for the greatest common divisor. -/
theorem multiplesAt_of_sharedDivisor_mem {as bs : List Span}
    (hh : .commonFactor (sharedDivisor above below) as bs ∈ commonFactors above below) :
    below.MultiplesAt (sharedDivisor above below) bs ∧ bs ≠ [] := by
  obtain ⟨⟨hne, hne'⟩, -, -, ⟨-, rfl⟩ | ⟨hother, -⟩⟩ := commonFactor_mem_commonFactors.mp hh
  · have hmultiples := Expr.multiplesAt_spans hbelow (sharedDivisor above below)
    have hgreatest := isGreatestDivisor_sharedDivisor below (Expr.nonzeroSizes_ne_nil_iff.mp hne)
    obtain ⟨k, s, hk, hk0⟩ := Expr.nonzeroSizes_ne_nil_iff.mp hne'
    exact ⟨hmultiples, hmultiples.ne_nil hbelow hk (hgreatest.dvd (.inr hk) hk0)⟩
  · exact absurd rfl hother

/-- The denominator's share of an entry: integers that the factor divides, and there are some. -/
theorem integerAt_of_commonFactor_mem {as bs : List Span}
    (hh : .commonFactor factor as bs ∈ commonFactors above below) :
    (∀ b ∈ bs, ∃ k, below.IntegerAt k (some b) ∧ factor ∣ k) ∧ bs ≠ [] := by
  by_cases hshared : sharedDivisor above below = factor
  · subst hshared
    obtain ⟨hmultiples, hne⟩ := multiplesAt_of_sharedDivisor_mem hbelow hh
    exact ⟨fun b hb => (hmultiples.mem_iff b).mp hb, hne⟩
  · obtain ⟨-, -, -, ⟨rfl, -⟩ | ⟨-, -, before, divisor, behind, hsplit, hsize, rfl, -⟩⟩ :=
      commonFactor_mem_commonFactors.mp hh
    · exact absurd rfl hshared
    · have hdivisor : divisor ∈ below.literals :=
        hsplit ▸ List.mem_append_right _ List.mem_cons_self
      obtain ⟨k, hk, hdvd⟩ := Expr.exists_integerAt_iff.mpr
        ⟨divisor, hdivisor, rfl, Literal.isMultipleOf_iff.mpr ⟨factor, hsize, dvd_refl _⟩⟩
      obtain ⟨a, ha⟩ := hk.exists_span hbelow
      rw [ha] at hk ⊢
      refine ⟨fun b hb => ?_, List.cons_ne_nil a []⟩
      obtain rfl := List.mem_singleton.mp hb
      exact ⟨k, hk, hdvd⟩

end Placed

/-! ### The report -/

/-- What the entries for the common factors of two sources say. -/
structure IsFactorReport (source denominatorSource : String) (above below : Expr)
    (hints : List Hint) : Prop where
  /-- Each entry is about a factor above one. It shows all multiples of the factor in the numerator
  and some in the denominator, and each of them can be read in its source. -/
  entry : ∀ h ∈ hints, ∃ factor as bs, h = .commonFactor factor as bs ∧ 2 ≤ factor ∧
    (above.MultiplesAt factor as ∧ as ≠ []) ∧ bs ≠ [] ∧
      (∀ a ∈ as, a.ReadsAsMultiple source factor) ∧
        ∀ b ∈ bs, b.ReadsAsMultiple denominatorSource factor
  /-- No factor is reported twice. -/
  nodup : (hints.filterMap factor?).Nodup
  /-- Both sides have to have an integer other than zero. -/
  eq_nil : ¬ (above.HasNonzeroInteger ∧ below.HasNonzeroInteger) → hints = []
  /-- The greatest common divisor comes first, with all its multiples in the denominator, unless it
  is one; any other factor is a proper multiple of it. -/
  greatest : above.HasNonzeroInteger → below.HasNonzeroInteger →
    ∃ g, Expr.IsGreatestDivisor g above below ∧
      (1 < g → ∃ as bs rest, hints = .commonFactor g as bs :: rest ∧ below.MultiplesAt g bs) ∧
        ∀ factor ∈ hints.filterMap factor?, factor ≠ g → ∃ m, 1 < m ∧ factor = m * g

/-- The first entry is about the greatest common divisor, unless that is one. -/
theorem exists_eq_cons_of_sharedDivisor (habove : above.HasNonzeroInteger)
    (hbelow : below.HasNonzeroInteger) (hfactor : 1 < sharedDivisor above below) :
    ∃ as bs rest,
      commonFactors above below = .commonFactor (sharedDivisor above below) as bs :: rest := by
  rw [commonFactors_eq_foldl habove hbelow, sharedFactor?, if_pos hfactor]
  obtain ⟨rest, hrest⟩ := prefix_foldl_addNarrowFactor above.literals below.literals _
  exact ⟨_, _, rest, hrest.symm⟩

theorem nodup_commonFactors (above below : Expr) :
    ((commonFactors above below).filterMap factor?).Nodup := by
  by_cases hsides : above.HasNonzeroInteger ∧ below.HasNonzeroInteger
  · rw [commonFactors_eq_foldl hsides.1 hsides.2]
    refine nodup_foldl_addNarrowFactor ?_
    cases sharedFactor? (sharedDivisor above below) above.literals below.literals with
    | none => exact List.nodup_nil
    | some h => cases hfactor : h.factor? <;> simp [hfactor]
  · rw [commonFactors_eq_nil hsides]
    exact List.nodup_nil

/-- **The common factors of two sources.** Each entry is about a factor above one and shows all its
multiples in the numerator and some in the denominator, each of which reads as a number. No factor
is reported twice. Unless it is one, the greatest common divisor comes first, with all its multiples
in the denominator, and the other factors are proper multiples of it. -/
theorem isFactorReport_commonFactors (source denominatorSource : String)
    (numerator denominator : Expr) (hnumerator : Expr.parse source = .ok numerator)
    (hdenominator : Expr.parse denominatorSource = .ok denominator) :
    IsFactorReport source denominatorSource numerator denominator
      (commonFactors numerator denominator) where
  entry h hh := by
    have habove := Expr.placed_of_mem_nodes_parse hnumerator
    have hbelow := Expr.placed_of_mem_nodes_parse hdenominator
    obtain ⟨factor, as, bs, rfl⟩ := exists_eq_commonFactor hh
    obtain ⟨-, hfactor, -⟩ := commonFactor_mem_commonFactors.mp hh
    obtain ⟨has, hne⟩ := multiplesAt_of_commonFactor_mem habove hh
    obtain ⟨hbs, hne'⟩ := integerAt_of_commonFactor_mem hbelow hh
    refine ⟨factor, as, bs, rfl, hfactor, ⟨has, hne⟩, hne', fun a ha => ?_, fun b hb => ?_⟩
    · obtain ⟨k, hk, hdvd⟩ := (has.mem_iff a).mp ha
      exact hk.readsAsMultiple hnumerator hdvd
    · obtain ⟨k, hk, hdvd⟩ := hbs b hb
      exact hk.readsAsMultiple hdenominator hdvd
  nodup := nodup_commonFactors numerator denominator
  eq_nil := commonFactors_eq_nil
  greatest habove hbelow := by
    have hgreatest := isGreatestDivisor_sharedDivisor denominator habove
    refine ⟨sharedDivisor numerator denominator, hgreatest, fun hone => ?_, ?_⟩
    · obtain ⟨as, bs, rest, heq⟩ := exists_eq_cons_of_sharedDivisor habove hbelow hone
      have hfirst := heq ▸ List.mem_cons_self
      exact ⟨as, bs, rest, heq, (multiplesAt_of_sharedDivisor_mem
        (Expr.placed_of_mem_nodes_parse hdenominator) hfirst).1⟩
    · intro factor hfactor hne
      obtain ⟨h, hh, hfactor⟩ := List.mem_filterMap.mp hfactor
      obtain ⟨_, as, bs, rfl⟩ := exists_eq_commonFactor hh
      obtain rfl := Option.some.inj hfactor
      obtain ⟨m, rfl⟩ := sharedDivisor_dvd hh
      obtain ⟨-, hpos, -⟩ := commonFactor_mem_commonFactors.mp hh
      have hm : 0 < m := (mul_pos_iff_of_pos_left hgreatest.1).mp (by omega)
      have hm1 : m ≠ 1 := fun hm1 => hne (by rw [hm1, mul_one])
      exact ⟨m, by omega, mul_comm _ m⟩

/-- The number four. -/
def four : Binary64 := .finite ⟨false, 2 ^ 52, 1024, by decide⟩

/-- The sum in `4x+(2)+0`. -/
def zeroSum : Expr :=
  .join .add
    (.join .add (.join .multiply (.num four (some ⟨0, 1⟩)) (.var "x" .one (some ⟨1, 2⟩)))
      (.num .two (some ⟨3, 6⟩)))
    (.num (.finite .zero) (some ⟨7, 8⟩))

/-- The product `2*4`. -/
def twoByFour : Expr := .join .multiply (.num .two (some ⟨0, 1⟩)) (.num four (some ⟨2, 3⟩))

/-- Of `4x+(2)+0` over `2*4` the factors two and four are reported. -/
theorem isFactorReport_zeroSum :
    (Expr.parse "4x+(2)+0" = .ok zeroSum ∧ Expr.parse "2*4" = .ok twoByFour) ∧
    IsFactorReport "4x+(2)+0" "2*4" zeroSum twoByFour
      [.commonFactor 2 [⟨0, 1⟩, ⟨3, 6⟩, ⟨7, 8⟩] [⟨0, 1⟩, ⟨2, 3⟩],
        .commonFactor 4 [⟨0, 1⟩, ⟨7, 8⟩] [⟨2, 3⟩]] := by
  have hnumerator : Expr.parse "4x+(2)+0" = .ok zeroSum := by decide +kernel
  have hdenominator : Expr.parse "2*4" = .ok twoByFour := by decide +kernel
  have hhints : commonFactors zeroSum twoByFour =
      [.commonFactor 2 [⟨0, 1⟩, ⟨3, 6⟩, ⟨7, 8⟩] [⟨0, 1⟩, ⟨2, 3⟩],
        .commonFactor 4 [⟨0, 1⟩, ⟨7, 8⟩] [⟨2, 3⟩]] := by decide +kernel
  have hreport := isFactorReport_commonFactors _ _ _ _ hnumerator hdenominator
  rw [hhints] at hreport
  exact ⟨⟨hnumerator, hdenominator⟩, hreport⟩

end Hint

end SchoolAlgebra
