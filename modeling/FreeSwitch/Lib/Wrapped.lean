/-
**Sums in 32 bits.**

* `foldl_add_eq`, `foldl_sub_eq`: a loop that adds, or subtracts, some elements of a list in 32 bits
  computes the sum, wrapped once;
* `sum_eraseIdx`, `sum_set`: a sum without one element, and with another one in its place;
* `sum_bounds`: how large a sum of small numbers gets.
-/

import Mathlib

namespace Wrapped

open List

/-- A number as an `int32_t`. -/
def int32 (z : Int) : Int := Int.bmod z (2 ^ 32)

theorem int32_eq {z : Int} (low : -2 ^ 31 ≤ z) (high : z < 2 ^ 31) : int32 z = z :=
  Int.bmod_eq_of_le (by omega) (by omega)

theorem int32_add_int32 (z w : Int) : int32 (int32 z + w) = int32 (z + w) := Int.bmod_add_bmod

theorem int32_sub_int32 (z w : Int) : int32 (int32 z - w) = int32 (z - w) := Int.bmod_sub_bmod

section Sums

variable {α : Type} {p : α → Bool} {f : α → Int}

theorem sum_filter (l : List α) :
    ((l.filter p).map f).sum = (l.map fun a => if p a then f a else 0).sum := by
  induction l with
  | nil => rfl
  | cons a l ih =>
    cases here : p a <;> simp [here, ih]

theorem sum_sub (g : α → Int) (l : List α) :
    (l.map fun a => f a - g a).sum = (l.map f).sum - (l.map g).sum := by
  induction l with
  | nil => rfl
  | cons a l ih =>
    simp only [map_cons, sum_cons, ih]
    ring

theorem foldl_add_eq (l : List α) (z : Int) :
    l.foldl (fun z a => if p a then int32 (z + f a) else z) (int32 z) =
      int32 (z + (l.map fun a => if p a then f a else 0).sum) := by
  induction l generalizing z with
  | nil => simp
  | cons a l ih =>
    rw [foldl_cons, map_cons, sum_cons]
    cases here : p a with
    | false => simp [ih]
    | true => simp [int32_add_int32, ih, add_assoc]

theorem foldl_sub_eq (l : List α) (z : Int) :
    l.foldl (fun z a => if p a then int32 (z - f a) else z) (int32 z) =
      int32 (z - (l.map fun a => if p a then f a else 0).sum) := by
  induction l generalizing z with
  | nil => simp
  | cons a l ih =>
    rw [foldl_cons, map_cons, sum_cons]
    cases here : p a with
    | false => simp [ih]
    | true => simp [int32_sub_int32, ih, sub_sub]

variable {l : List α}

theorem sum_eraseIdx {k : Nat} {a : α} (here : l[k]? = some a) :
    (l.map f).sum = f a + ((l.eraseIdx k).map f).sum := by
  obtain ⟨inside, rfl⟩ := List.getElem?_eq_some_iff.mp here
  have perm := (getElem_cons_eraseIdx_perm inside).map f
  rw [← perm.sum_eq, map_cons, sum_cons]

theorem sum_set {k : Nat} {a : α} (here : l[k]? = some a) (b : α) :
    ((l.set k b).map f).sum = (l.map f).sum - f a + f b := by
  obtain ⟨inside, rfl⟩ := List.getElem?_eq_some_iff.mp here
  have there : (l.set k b)[k]? = some b := by simp [inside]
  rw [sum_eraseIdx there, sum_eraseIdx here, eraseIdx_set_eq]
  ring

theorem sum_bounds {low high : Int} (below : ∀ a ∈ l, low ≤ f a) (above : ∀ a ∈ l, f a ≤ high) :
    l.length * low ≤ (l.map f).sum ∧ (l.map f).sum ≤ l.length * high := by
  induction l with
  | nil => simp
  | cons a l ih =>
    obtain ⟨lower, upper⟩ := ih (fun b member => below b (mem_cons_of_mem _ member))
      fun b member => above b (mem_cons_of_mem _ member)
    have := below a mem_cons_self
    have := above a mem_cons_self
    simp only [map_cons, sum_cons, length_cons, Nat.cast_add, Nat.cast_one, add_mul,
      one_mul]
    omega

end Sums

end Wrapped
