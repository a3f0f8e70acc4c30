import Mathlib.Data.List.Basic
import Mathlib.Data.List.Forall2

/-!
# General facts about lists

Facts about lists alone, which are used with lists of characters, tokens, terms and hints.

A scanner, a reader of a data format and an outline all have to find where a run of characters of
one class ends. The answer is the same in all of them: a run is all there is of its class if the
first character behind it is not of the class. This is said for the run itself, for what stands
behind it, and for both at once.

Groups of a list are listed in the order in which their keys are first met. That order is spoken of
by first indices, and it survives leaving elements out.

## Main results

* `takeWhile_append_of_head?`, `dropWhile_append_of_head?` — a run ends where its class ends
* `append_inj_of_forall` — so a text begins with one run only
* `takeWhile_take_of_length_le`, `dropWhile_take` — runs in a part of a list
* `pairwise_eraseDups` — without repetitions elements are in the order of their first occurrences
* `forall₂_filter_filterMap` — what each element of a list gives, if it has a property
-/

namespace SchoolAlgebra

variable {α β : Type*} {p : α → Bool} {xs rest : List α}

/-! ### Runs of a class

A hypothesis about the element behind a run is stated for the head as an option: there may be
nothing behind, and then the run has ended as well. -/

/-- A run of elements of one class ends where the class ends. -/
theorem takeWhile_append_of_head? (h : ∀ x ∈ xs, p x = true)
    (hrest : ∀ x, rest.head? = some x → p x = false) : (xs ++ rest).takeWhile p = xs := by
  rw [List.takeWhile_append_of_pos h]
  cases rest with
  | nil => simp
  | cons x rest => simp [hrest x rfl]

theorem dropWhile_append_of_head? (h : ∀ x ∈ xs, p x = true)
    (hrest : ∀ x, rest.head? = some x → p x = false) : (xs ++ rest).dropWhile p = rest := by
  rw [List.dropWhile_append_of_pos h]
  cases rest with
  | nil => simp
  | cons x rest => simp [hrest x rfl]

/-- Where a run of elements of a class ends is determined by the class. -/
theorem append_inj_of_forall (p : α → Bool) {a b r s : List α} (ha : ∀ x ∈ a, p x = true)
    (hb : ∀ x ∈ b, p x = true) (hr : ∀ x ∈ r.head?, p x = false) (hs : ∀ x ∈ s.head?, p x = false)
    (h : a ++ r = b ++ s) : a = b ∧ r = s := by
  have heq : a = b := by
    rw [← takeWhile_append_of_head? ha hr, h, takeWhile_append_of_head? hb hs]
  subst heq
  exact ⟨rfl, List.append_cancel_left h⟩

/-- A run that a part of a list holds is the run of the list. -/
theorem takeWhile_take_of_length_le {k : Nat} (h : (xs.takeWhile p).length ≤ k) :
    (xs.take k).takeWhile p = xs.takeWhile p := by
  rw [← List.take_takeWhile, List.take_of_length_le h]

theorem dropWhile_take (p : α → Bool) (xs : List α) (k : Nat) :
    (xs.take k).dropWhile p = (xs.dropWhile p).take (k - (xs.takeWhile p).length) := by
  induction xs generalizing k with
  | nil => simp
  | cons x rest ih =>
    cases k with
    | zero => simp
    | succ k =>
      by_cases hx : p x = true
      · simp [hx, ih]
      · simp [hx]

/-! ### Parts of a list -/

/-- A list with two different elements has two or more. -/
theorem two_le_length_of_mem {a b : α} (ha : a ∈ xs) (hb : b ∈ xs) (hne : a ≠ b) :
    2 ≤ xs.length := by
  match xs, ha, hb with
  | [x], ha, hb =>
    rw [List.mem_singleton] at ha hb
    exact absurd (ha.trans hb.symm) hne
  | _ :: _ :: rest, _, _ => exact Nat.le_add_left 2 rest.length

/-- An element that is neither before nor behind two neighbours is one of the two. -/
theorem eq_or_eq_of_append_cons_eq {before behind init rest : List α} {u v w : α}
    (h : before ++ u :: behind = init ++ v :: w :: rest) (hinit : u ∉ init) (hrest : u ∉ rest) :
    before = init ∧ u = v ∨ before = init ++ [v] ∧ u = w := by
  rcases List.append_eq_append_iff.mp h with ⟨as, rfl, has⟩ | ⟨as, rfl, has⟩
  · cases as with
    | nil => exact .inl ⟨(List.append_nil _).symm, (List.cons.inj has).1⟩
    | cons x as =>
      obtain ⟨rfl, -⟩ := List.cons.inj has
      exact absurd (List.mem_append_right _ List.mem_cons_self) hinit
  · cases as with
    | nil => exact .inl ⟨List.append_nil _, (List.cons.inj has).1.symm⟩
    | cons x as =>
      obtain ⟨rfl, htail⟩ := List.cons.inj has
      cases as with
      | nil => exact .inr ⟨rfl, (List.cons.inj htail).1.symm⟩
      | cons y as =>
        obtain ⟨-, rfl⟩ := List.cons.inj htail
        exact absurd (List.mem_append_right _ List.mem_cons_self) hrest

/-! ### The order of first occurrences

`eraseDups` keeps the first of equal elements. By induction it takes the first element and goes on
with a filtered rest, so that what is needed besides is that a filter keeps the order of first
indices. -/

section FirstOccurrences

variable [BEq α] [LawfulBEq α]

/-- An element that comes first among those that a filter keeps came first before. -/
theorem idxOf_lt_of_idxOf_filter_lt {a b : α} (hb : p b = true)
    (h : (xs.filter p).idxOf a < (xs.filter p).idxOf b) : xs.idxOf a < xs.idxOf b := by
  induction xs with
  | nil => exact absurd h (Nat.lt_irrefl _)
  | cons x xs ih =>
    have hne : x ≠ b := by
      rintro rfl
      rw [List.filter_cons_of_pos hb, List.idxOf_cons_self] at h
      exact Nat.not_lt_zero _ h
    rw [List.idxOf_cons_ne _ hne]
    by_cases hxa : x = a
    · rw [hxa, List.idxOf_cons_self]
      exact Nat.succ_pos _
    · rw [List.idxOf_cons_ne _ hxa]
      refine Nat.succ_lt_succ (ih ?_)
      by_cases hp : p x = true
      · rw [List.filter_cons_of_pos hp, List.idxOf_cons_ne _ hxa, List.idxOf_cons_ne _ hne] at h
        exact Nat.lt_of_succ_lt_succ h
      · rwa [List.filter_cons_of_neg hp] at h

/-- Without repetitions the elements of a list are in the order of their first occurrences. -/
theorem pairwise_eraseDups : ∀ xs : List α,
    xs.eraseDups.Pairwise fun a b => xs.idxOf a < xs.idxOf b
  | [] => .nil
  | x :: xs => by
    have hrest := pairwise_eraseDups (xs.filter fun b => !b == x)
    have hkept {b : α} (hb : b ∈ (xs.filter fun b => !b == x).eraseDups) : (!b == x) = true :=
      (List.mem_filter.mp (List.mem_eraseDups.mp hb)).2
    have hne {b : α} (hb : (!b == x) = true) : x ≠ b := by
      rintro rfl
      simp at hb
    -- the first element comes before all others, which are in order behind it by induction
    rw [List.eraseDups_cons]
    refine List.pairwise_cons.mpr ⟨fun b hb => ?_, hrest.imp_of_mem fun {a b} ha hb hab => ?_⟩
    · rw [List.idxOf_cons_self, List.idxOf_cons_ne _ (hne (hkept hb))]
      exact Nat.succ_pos _
    · rw [List.idxOf_cons_ne _ (hne (hkept ha)), List.idxOf_cons_ne _ (hne (hkept hb))]
      exact Nat.succ_lt_succ
        (idxOf_lt_of_idxOf_filter_lt (p := fun b => !b == x) (hkept hb) hab)
termination_by xs => xs.length
decreasing_by exact Nat.lt_succ_of_le (List.length_filter_le _ _)

end FirstOccurrences

/-! ### Lists element by element -/

/-- What a filter keeps stands at the indices that it finds. -/
theorem filter_eq_filterMap_findIdxs (p : α → Bool) (xs : List α) :
    xs.filter p = (xs.findIdxs p).filterMap (xs[·]?) := by
  induction xs with
  | nil => rfl
  | cons x xs ih =>
    have htail : ((xs.findIdxs p (0 + 1)).filterMap ((x :: xs)[·]?)) = xs.filter p := by
      rw [List.findIdxs_start, List.filterMap_map, ih]
      rfl
    rw [List.findIdxs_cons, List.filter_cons]
    split
    · rw [List.filterMap_cons, htail]
      rfl
    · exact htail.symm

/-- What each element of a list gives, if it has a property, and nothing if it has not. -/
theorem forall₂_filter_filterMap {f : α → Option β} {R : α → β → Prop} {as : List α}
    (hsome : ∀ a ∈ as, p a = true → ∃ b, f a = some b ∧ R a b)
    (hnone : ∀ a ∈ as, p a = false → f a = none) :
    List.Forall₂ R (as.filter p) (as.filterMap f) := by
  induction as with
  | nil => exact .nil
  | cons a as ih =>
    obtain ⟨hsomeHead, hsomeTail⟩ := List.forall_mem_cons.mp hsome
    obtain ⟨hnoneHead, hnoneTail⟩ := List.forall_mem_cons.mp hnone
    cases hp : p a with
    | true =>
      obtain ⟨b, hb, hR⟩ := hsomeHead hp
      rw [List.filter_cons_of_pos hp, List.filterMap_cons_some hb]
      exact .cons hR (ih hsomeTail hnoneTail)
    | false =>
      rw [List.filter_cons_of_neg (by simp [hp]), List.filterMap_cons_none (hnoneHead hp)]
      exact ih hsomeTail hnoneTail

/-- A list is given back if each element is given back. -/
theorem mapM_eq_some {f : α → Option α} (h : ∀ x ∈ xs, f x = some x) :
    xs.mapM f = some xs := by
  induction xs with
  | nil => rfl
  | cons x xs ih =>
    obtain ⟨hx, hxs⟩ := List.forall_mem_cons.mp h
    simp [hx, ih hxs]

end SchoolAlgebra
