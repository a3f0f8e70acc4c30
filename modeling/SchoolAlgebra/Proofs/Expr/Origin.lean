import Mathlib.Data.List.Basic
import SchoolAlgebra.Hint.Analysis
import SchoolAlgebra.Proofs.Expr.SimplifyStable

/-!
# Places do not matter

What is done with an expression does not depend on where its parts stand. To say so, every span is
moved to the origin of the source. Unlike `Expr.bare`, which forgets the spans, this leaves the
nodes that have a span apart from those that have none, and so it can be followed into the hints:
they list the spans that there are.

Each function commutes with the move. So two expressions that are the same at the origin have the
same value, simplify to expressions that are the same at the origin, and have the same hints there.

## Main definitions

* `Expr.atOrigin`, `Hint.atOrigin` — with every span at the origin

## Main results

* `Expr.value?_atOrigin` — the value does not depend on spans
* `Expr.simplify_atOrigin` — simplifying moves spans without looking at them
* `Hint.ofExpr_atOrigin` — nor do the hints look at them
-/

namespace SchoolAlgebra

/-- The empty span at the start of a source. -/
def Span.origin : Span := ⟨0, 0⟩

/-- The origin, if there is a span. -/
def Span.toOrigin (s : Option Span) : Option Span := s.map fun _ => .origin

namespace Expr

/-- The expression with every span at the origin. -/
def atOrigin : Expr → Expr
  | .num v s => .num v (Span.toOrigin s)
  | .var name coefficient s => .var name coefficient (Span.toOrigin s)
  | .binary op left right s => .binary op left.atOrigin right.atOrigin (Span.toOrigin s)
  | .neg e s => .neg e.atOrigin (Span.toOrigin s)
  | .power base exponent s => .power base.atOrigin exponent (Span.toOrigin s)

@[simp] theorem bare_atOrigin (e : Expr) : e.atOrigin.bare = e.bare := by
  induction e with
  | num | var => rfl
  | neg _ _ ih | power _ _ _ ih => simp only [atOrigin, bare, ih]
  | binary _ _ _ _ ihl ihr => simp only [atOrigin, bare, ihl, ihr]

@[simp] theorem span_atOrigin (e : Expr) : e.atOrigin.span = Span.toOrigin e.span := by
  cases e <;> rfl

@[simp] theorem start_atOrigin (e : Expr) : e.atOrigin.start = 0 := by
  rw [start, span_atOrigin]
  cases e.span <;> rfl

@[simp] theorem stop_atOrigin (e : Expr) : e.atOrigin.stop = 0 := by
  rw [stop, span_atOrigin]
  cases e.span <;> rfl

@[simp] theorem atOrigin_withSpan (s : Option Span) (e : Expr) :
    (e.withSpan s).atOrigin = e.atOrigin.withSpan (Span.toOrigin s) := by
  cases e <;> rfl

theorem atOrigin_join (op : Operator) (left right : Expr) :
    (join op left right).atOrigin = join op left.atOrigin right.atOrigin := by
  simp only [join, atOrigin, start_atOrigin, stop_atOrigin]
  rfl

/-! ### Values and simplification

To move spans to the origin is to replace them, which neither a value nor simplifying looks at. -/

theorem atOrigin_eq_mapSpan (e : Expr) : e.atOrigin = e.mapSpan Span.toOrigin := by
  induction e with
  | num | var => rfl
  | neg _ _ ih | power _ _ _ ih => rw [atOrigin, ih, mapSpan]
  | binary _ _ _ _ ihl ihr => rw [atOrigin, ihl, ihr, mapSpan]

@[simp] theorem value?_atOrigin (e : Expr) : e.atOrigin.value? = e.value? := by
  rw [atOrigin_eq_mapSpan, value?_mapSpan]

/-- **Simplifying moves spans without looking at them.** -/
theorem simplify_atOrigin (e : Expr) : e.atOrigin.simplify = e.simplify.atOrigin := by
  rw [atOrigin_eq_mapSpan, simplify_mapSpan, ← atOrigin_eq_mapSpan]

end Expr

/-! ### Hints

A hint lists the spans that there are, and leaves out terms that have none. Moving to the origin
keeps which spans there are, so lists of the same length are collected, in the same order. -/

/-- The term with its span at the origin. -/
def Term.atOrigin (t : Term) : Term := { t with span := Span.toOrigin t.span }

namespace Expr

theorem additiveTerms_atOrigin (e : Expr) (negative : Bool) :
    e.atOrigin.additiveTerms negative =
      (e.additiveTerms negative).map fun t => (t.1.atOrigin, t.2) := by
  induction e generalizing negative with
  | num | var | neg | power => rfl
  | binary op left right s ihl ihr =>
    cases op with
    | add | subtract => simp only [atOrigin, additiveTerms, ihl, ihr, List.map_append]
    | multiply | divide => rfl

theorem readFactors_atOrigin (e : Expr) (t : Term) :
    e.atOrigin.readFactors t.atOrigin = (e.readFactors t).atOrigin := by
  induction e generalizing t with
  | num | var => rfl
  | neg operand s ih => exact ih { t with negative := !t.negative }
  | power base exponent s ih => exact congrArg (fun t : Term => { t with exponent }) (ih t)
  | binary op left right s ihl ihr =>
    cases op with
    | add | subtract => rfl
    | multiply => simp only [atOrigin, readFactors, ihl, ihr]
    | divide => exact ihl t

theorem toTerm_atOrigin (e : Expr) (negative : Bool) :
    e.atOrigin.toTerm negative = (e.toTerm negative).atOrigin := by
  rw [toTerm, toTerm, ← readFactors_atOrigin, span_atOrigin]
  rfl

theorem terms_atOrigin (e : Expr) : e.atOrigin.terms = e.terms.map Term.atOrigin := by
  simp only [terms, additiveTerms_atOrigin, List.map_map, Function.comp_def, toTerm_atOrigin]

end Expr

theorem Term.groups_map_atOrigin (ts : List Term) :
    groups (ts.map Term.atOrigin) = (groups ts).map (List.map Term.atOrigin) := by
  have hkeys : (ts.map Term.atOrigin).map key = ts.map key := List.map_map
  rw [groups, groups, hkeys, List.map_map]
  exact List.map_congr_left fun k _ => List.filter_map

namespace Hint

/-- The hint with every span at the origin. -/
def atOrigin : Hint → Hint
  | .commonFactor factor numerator denominator =>
    .commonFactor factor (numerator.map fun _ => .origin) (denominator.map fun _ => .origin)
  | .likeTerms name? exponent terms => .likeTerms name? exponent (terms.map fun _ => .origin)
  | .reducibleFraction divisor _ _ => .reducibleFraction divisor .origin .origin

theorem filterMap_span_map_atOrigin (ts : List Term) :
    (ts.map Term.atOrigin).filterMap Term.span =
      (ts.filterMap Term.span).map fun _ => Span.origin := by
  rw [List.filterMap_map, List.map_filterMap]
  rfl

theorem ofGroup?_map_atOrigin (ts : List Term) :
    ofGroup? (ts.map Term.atOrigin) = (ofGroup? ts).map atOrigin := by
  match ts with
  | [] | [_] => rfl
  | first :: second :: rest =>
    exact congrArg (fun spans => some (likeTerms first.name? first.exponent spans))
      (filterMap_span_map_atOrigin (first :: second :: rest))

theorem likeTermGroups_atOrigin (e : Expr) :
    likeTermGroups e.atOrigin = (likeTermGroups e).map atOrigin := by
  rw [likeTermGroups, likeTermGroups, Expr.terms_atOrigin, Term.groups_map_atOrigin,
    List.filterMap_map, List.map_filterMap]
  exact List.filterMap_congr fun ts _ => ofGroup?_map_atOrigin ts

theorem ofFraction?_atOrigin (left right : Expr) :
    ofFraction? left.atOrigin right.atOrigin = (ofFraction? left right).map atOrigin := by
  cases left with
  | num n above =>
    cases right with
    | num d below =>
      cases above with
      | none => rfl
      | some above =>
        cases below with
        | none => rfl
        | some below =>
          -- the size of a number does not depend on its span
          change ofFraction? (.num n (some .origin)) (.num d (some .origin)) = _
          simp only [ofFraction?, Literal.size?]
          cases n.toInt? with
          | none => rfl
          | some a =>
            cases d.toInt? with
            | none => rfl
            | some b =>
              dsimp only [bind, Option.bind, Option.map_some]
              rw [apply_ite (Option.map atOrigin)]
              rfl
    | var | binary | neg | power => cases above <;> rfl
  | var | binary | neg | power => rfl

theorem reducibleFractions_atOrigin (e : Expr) :
    reducibleFractions e.atOrigin = (reducibleFractions e).map atOrigin := by
  induction e with
  | num | var => rfl
  | neg _ _ ih | power _ _ _ ih => exact ih
  | binary op left right s ihl ihr =>
    cases op with
    | divide =>
      simp only [Expr.atOrigin, reducibleFractions, ihl, ihr, List.map_append,
        ofFraction?_atOrigin, Option.toList_map]
    | add | subtract | multiply =>
      simp only [Expr.atOrigin, reducibleFractions, ihl, ihr, List.map_append]

/-- **Hints do not look at spans.** -/
theorem ofExpr_atOrigin (e : Expr) : ofExpr e.atOrigin = (ofExpr e).map atOrigin := by
  rw [ofExpr, ofExpr, likeTermGroups_atOrigin, reducibleFractions_atOrigin, List.map_append]

end Hint

end SchoolAlgebra
