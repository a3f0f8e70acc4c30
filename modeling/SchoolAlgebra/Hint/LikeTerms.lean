import SchoolAlgebra.Expr.Basic
import SchoolAlgebra.Hint.Basic

/-!
# Like terms of a sum

A sum is taken apart into its terms, however its additions and subtractions are nested. Two terms
are alike if they have the same variable and the same exponent, which are read off the term by
walking through its factors.

## Implementation notes

The walk keeps one variable and one exponent: of several variables the last counts, and of several
exponents the last, also an exponent on a number. Divisors are not walked into.
-/

namespace SchoolAlgebra

/-- A term of a sum, as far as likeness is concerned. -/
structure Term where
  /-- The variable; a constant term has none. -/
  name? : Option String
  /-- The exponent. -/
  exponent : Binary64
  /-- Whether the term counts negatively. -/
  negative : Bool
  /-- Where the term stands. -/
  span : Option Span
  deriving DecidableEq

namespace Expr

/-- The terms of a sum, each with whether it is subtracted, given whether the sum itself is. -/
def additiveTerms (negative : Bool) : Expr → List (Expr × Bool)
  | .binary .add left right _ => left.additiveTerms negative ++ right.additiveTerms negative
  | .binary .subtract left right _ => left.additiveTerms negative ++ right.additiveTerms !negative
  | e => [(e, negative)]

/-- What the factors of a term add to what is known of it. -/
def readFactors (e : Expr) (t : Term) : Term :=
  match e with
  | .var name _ _ => { t with name? := some name }
  | .neg operand _ => operand.readFactors { t with negative := !t.negative }
  | .power base exponent _ => { base.readFactors t with exponent }
  | .binary .multiply left right _ => right.readFactors (left.readFactors t)
  | .binary .divide left _ _ => left.readFactors t
  | _ => t

/-- An expression as a term of a sum. -/
def toTerm (e : Expr) (negative : Bool) : Term := e.readFactors ⟨none, .one, negative, e.span⟩

/-- The terms of a sum. -/
def terms (e : Expr) : List Term := (e.additiveTerms false).map fun t => t.1.toTerm t.2

end Expr

namespace Term

/-- What like terms have in common. -/
def key (t : Term) : Option String × Binary64 := (t.name?, t.exponent.unsignZero)

/-- The terms in groups of like terms, groups and terms in the order in which they come. -/
def groups (terms : List Term) : List (List Term) :=
  (terms.map key).eraseDups.map fun k => terms.filter (·.key = k)

end Term

namespace Hint

/-- The hint for a group of like terms, if there are two or more. -/
def ofGroup? : List Term → Option Hint
  | first :: second :: rest =>
    some (.likeTerms first.name? first.exponent ((first :: second :: rest).filterMap Term.span))
  | _ => none

/-- The groups of like terms in a sum. -/
def likeTermGroups (e : Expr) : List Hint := (Term.groups e.terms).filterMap ofGroup?

end Hint

end SchoolAlgebra
