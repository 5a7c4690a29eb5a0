/-
**Delivery in order, with losses and repetitions.**

A channel that keeps the order of what it is given, but may lose any of it and deliver any of it
again before what follows.

* `Delivers`: what is delivered of what is sent;
* `Delivers.append`: what is delivered of two parts is one part of each.
-/

import Mathlib.Data.List.Basic

namespace Delivery

open List

variable {α : Type}

/-- `got` is delivered of `sent`: an element arrives any number of times before the next. -/
inductive Delivers : List α → List α → Prop
  | nil : Delivers [] []
  | next {a : α} {sent got : List α} : Delivers sent got → Delivers (a :: sent) got
  | arrives {a : α} {sent got : List α} : Delivers (a :: sent) got → Delivers (a :: sent) (a :: got)

theorem Delivers.append {first second got : List α} (delivered : Delivers (first ++ second) got) :
    ∃ got₁ got₂, got = got₁ ++ got₂ ∧ Delivers first got₁ ∧ Delivers second got₂ := by
  generalize whole : first ++ second = sent at delivered
  induction delivered generalizing first with
  | nil =>
    obtain ⟨rfl, rfl⟩ := append_eq_nil_iff.mp whole
    exact ⟨[], [], rfl, .nil, .nil⟩
  | @next a sent got delivered ih =>
    cases first with
    | nil =>
      obtain rfl := whole
      exact ⟨[], got, rfl, .nil, .next delivered⟩
    | cons b first =>
      obtain ⟨rfl, rest⟩ := List.cons.inj whole
      obtain ⟨got₁, got₂, rfl, here, later⟩ := ih rest
      exact ⟨got₁, got₂, rfl, .next here, later⟩
  | @arrives a sent got rest ih =>
    cases first with
    | nil =>
      obtain rfl := whole
      exact ⟨[], a :: got, rfl, .nil, .arrives rest⟩
    | cons b first =>
      obtain ⟨got₁, got₂, rfl, here, later⟩ := ih whole
      obtain ⟨rfl, -⟩ := List.cons.inj whole
      exact ⟨b :: got₁, got₂, rfl, .arrives here, later⟩

theorem Delivers.mem {sent got : List α} (delivered : Delivers sent got) {a : α}
    (arrived : a ∈ got) : a ∈ sent := by
  induction delivered with
  | nil => exact arrived
  | next _ ih => exact mem_cons_of_mem _ (ih arrived)
  | arrives _ ih =>
    rcases mem_cons.mp arrived with rfl | later
    · exact mem_cons_self
    · exact ih later

end Delivery
