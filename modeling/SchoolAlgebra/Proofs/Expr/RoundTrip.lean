import Mathlib
import SchoolAlgebra.Proofs.Expr.Derivation
import SchoolAlgebra.Proofs.Expr.FixedPoint
import SchoolAlgebra.Proofs.Expr.Misreading

/-!
# Printing and reading

What is printed for an expression of a source, simplified or not, is read again as `Expr.reread`
says, provided that it reads back. The text is then printed once more without a change. An
expression that does not read back is refused, or read as another one with another text.

## The condition

`Expr.ReadsBack` excludes what the printer gives no text of its own: a power whose base is a power,
since no parentheses are put around the base, and an exponent that is infinite or whose exact text
has an exponent part. Both can come from a source. The condition is not stronger than it has to be:
where it fails, the text is not printed again, and this is the other half of the second theorem.

## What may change

A text may be printed again and still be read as another expression. Numbers lose what is behind two
places, and operands that join a chain lose the parentheses that they had in the source. Neither can
be seen in a text that was printed.

## Main results

* `Expr.exists_parse_render_of_parse` — the expression that is read again
* `Expr.exists_parse_render_eq_iff` — when the text is printed again
-/

namespace SchoolAlgebra

namespace Expr

variable {source : String} {e n : Expr}

/-- What is printed comes from a source. -/
theorem lexical_of_parse_or_simplify (h : parse source = .ok e) (hn : n = e ∨ n = e.simplify) :
    n.Lexical := by
  rcases hn with rfl | rfl
  · exact lexical_of_parse h
  · exact (lexical_of_parse h).simplify

/-- **Printing keeps the grouping.** Let an expression be read from a source, and perhaps be
simplified. If no base in it is a power and all its exponents are finite and integral or at least
one ten-thousandth, its text is read as the expression itself but for the values of its numerals,
the sign of a zero exponent, and right operands that continue the chain on their left. -/
theorem exists_parse_render_of_parse (source : String) (e n : Expr) (h : parse source = .ok e)
    (hn : n = e ∨ n = e.simplify) (hback : n.ReadsBack) :
    ∃ m, parse n.render = .ok m ∧ m.bare = n.reread :=
  exists_parse_render (lexical_of_parse_or_simplify h hn) hback

/-- The expression of `a + (b - 2)`. -/
def groupedSum : Expr :=
  .binary .add (.var "a" .one (some ⟨0, 1⟩))
    (.binary .subtract (.var "b" .one (some ⟨5, 6⟩)) (.num .two (some ⟨9, 10⟩)) (some ⟨4, 11⟩))
    (some ⟨0, 11⟩)

/-- The difference continues the chain of the sum. -/
theorem exists_parse_render_groupedSum :
    parse "a + (b - 2)" = .ok groupedSum ∧ groupedSum.ReadsBack ∧
      ∃ m, parse groupedSum.render = .ok m ∧ m.bare =
        .binary .subtract (.binary .add (.var "a" .one none) (.var "b" .one none) none)
          (.num .two none) none := by
  have hparse : parse "a + (b - 2)" = .ok groupedSum := by decide +kernel
  have hback : groupedSum.ReadsBack := by decide +kernel
  have hreread : groupedSum.reread =
      .binary .subtract (.binary .add (.var "a" .one none) (.var "b" .one none) none)
        (.num .two none) none := by decide +kernel
  obtain ⟨m, hm, htree⟩ := exists_parse_render_of_parse _ _ _ hparse (.inl rfl) hback
  exact ⟨hparse, hback, m, hm, htree.trans hreread⟩

/-- **A text is printed again exactly if the expression reads back.** Let an expression be read from
a source, and perhaps be simplified. Its text is an expression with the same text if and only if no
base in it is a power and all its exponents are finite and integral or at least one
ten-thousandth. -/
theorem exists_parse_render_eq_iff (source : String) (e n : Expr) (h : parse source = .ok e)
    (hn : n = e ∨ n = e.simplify) :
    (∃ m, parse n.render = .ok m ∧ m.render = n.render) ↔ n.ReadsBack := by
  have hlexical := lexical_of_parse_or_simplify h hn
  constructor
  · rintro ⟨m, hm, htext⟩
    exact hlexical.readsBack_of_render_eq hm htext
  · intro hback
    obtain ⟨m, hm, htree⟩ := exists_parse_render hlexical hback
    exact ⟨m, hm, by rw [← render_bare, htree, render_reread]⟩

/-- The text of the sum is printed again. -/
theorem exists_parse_render_eq_groupedSum :
    parse "a + (b - 2)" = .ok groupedSum ∧
      ∃ m, parse groupedSum.render = .ok m ∧ m.render = groupedSum.render := by
  have hparse : parse "a + (b - 2)" = .ok groupedSum := by decide +kernel
  exact ⟨hparse, (exists_parse_render_eq_iff _ _ _ hparse (.inl rfl)).mpr (by decide +kernel)⟩

/-- The expression of `(x^2)^3`. -/
def nestedPower : Expr :=
  .power (.power (.var "x" .one (some ⟨1, 2⟩)) .two (some ⟨0, 5⟩))
    (.finite ⟨false, 3 * 2 ^ 51, 1023, by decide⟩) (some ⟨0, 7⟩)

/-- The expression of `x^0.00001`. -/
def tinyPower : Expr :=
  .power (.var "x" .one (some ⟨0, 1⟩))
    (.finite ⟨false, 5902958103587057, 1005, by decide⟩) (some ⟨0, 9⟩)

/-- A power that is a base has lost its parentheses and is refused; a small exponent is read as a
product less a number. So not every text is printed again. -/
theorem not_forall_parse_render_eq :
    (parse "(x^2)^3" = .ok nestedPower ∧ nestedPower.render = "x^2^3" ∧
        ∀ m, parse nestedPower.render ≠ .ok m) ∧
      (parse "x^0.00001" = .ok tinyPower ∧ tinyPower.render = "x^1e-05" ∧
        ∃ m, parse tinyPower.render = .ok m ∧ m.render = "x^1 × e - 5") ∧
      ¬ ∀ source e, parse source = .ok e → ∃ m, parse e.render = .ok m ∧ m.render = e.render := by
  have hsource : parse "(x^2)^3" = .ok nestedPower := by decide +kernel
  have hrefused : ∀ m, parse nestedPower.render ≠ .ok m := by
    have hnone : parse? nestedPower.render = none := by decide +kernel
    intro m hm
    rw [parse?_eq_some_iff.mpr hm] at hnone
    cases hnone
  have htiny : ∃ m, parse tinyPower.render = .ok m ∧ m.render = "x^1 × e - 5" := by
    have hmap : (parse? tinyPower.render).map render = some "x^1 × e - 5" := by decide +kernel
    obtain ⟨m, hm, htext⟩ := Option.map_eq_some_iff.mp hmap
    exact ⟨m, parse?_eq_some_iff.mp hm, htext⟩
  refine ⟨⟨hsource, by decide +kernel, hrefused⟩, ⟨by decide +kernel, by decide +kernel, htiny⟩, ?_⟩
  intro hall
  obtain ⟨m, hm, -⟩ := hall _ _ hsource
  exact hrefused m hm

end Expr

end SchoolAlgebra
