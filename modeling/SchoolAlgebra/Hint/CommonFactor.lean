import SchoolAlgebra.Hint.Basic
import SchoolAlgebra.Hint.Literal

/-!
# Common factors of a numerator and a denominator

A factor is common if it divides a number of the numerator and a number of the denominator. The
greatest divisor of all numbers on both sides is reported first, with every number that it divides;
after it each number of the denominator that divides some number of the numerator.
-/

namespace SchoolAlgebra

/-- The greatest common divisor of integers: one if there are none, a single one as it is. -/
def gcdAll : List Int → Int
  | [] => 1
  | n :: rest => rest.foldl (fun a b => (Int.gcd a b : Int)) n

namespace Hint

/-- The sizes of the integers among some numbers, zeros left out. -/
def nonzeroSizes (literals : List Literal) : List Int :=
  (literals.filterMap Literal.size?).filter (· != 0)

/-- The hint for a factor of all numbers of a fraction. -/
def sharedFactor? (factor : Int) (numerator denominator : List Literal) : Option Hint :=
  if 1 < factor then
    some (.commonFactor factor (Literal.spans (numerator.filter (Literal.isMultipleOf factor)))
      (Literal.spans (denominator.filter (Literal.isMultipleOf factor))))
  else
    none

/-- Whether a hint is about a factor. -/
def isAboutFactor (factor : Int) : Hint → Bool
  | .commonFactor other .. => other == factor
  | _ => false

/-- The hint for a number of the denominator that divides numbers of the numerator. -/
def narrowFactor? (numerator : List Literal) (divisor : Literal) : Option (Int × Hint) := do
  let factor ← divisor.size?
  let multiples := numerator.filter (Literal.isMultipleOf factor)
  if 1 < factor && !multiples.isEmpty then
    some (factor, .commonFactor factor (Literal.spans multiples) divisor.span.toList)
  else
    none

/-- The hints so far and that for a number of the denominator, unless its factor is among them. -/
def addNarrowFactor (numerator : List Literal) (found : List Hint) (divisor : Literal) :
    List Hint :=
  match narrowFactor? numerator divisor with
  | none => found
  | some (factor, hint) => if found.any (isAboutFactor factor) then found else found ++ [hint]

/-- The factors that the numbers of a numerator and of a denominator have in common. -/
def commonFactors (numerator denominator : Expr) : List Hint :=
  let above := numerator.literals
  let below := denominator.literals
  let sizes := (nonzeroSizes above, nonzeroSizes below)
  if sizes.1.isEmpty || sizes.2.isEmpty then
    []
  else
    let shared := sharedFactor? (gcdAll (sizes.1 ++ sizes.2)) above below
    below.foldl (addNarrowFactor above) shared.toList

end Hint

end SchoolAlgebra
