/-
**Counting the marked cells of a table.**

`tally mark cells n` is how many of the first `n` cells carry a mark. Writing one cell changes it by
what that cell loses and gains (`tally_update`, `tally_mark`, `tally_unmark`). So does a sum over a list
of records with distinct keys, when one record is changed (`sum_change`).
-/

import Mathlib

namespace Tally

open Function List

variable {α : Type} (mark : α → Prop) [DecidablePred mark]

/-- How many of the first `n` cells are marked. -/
def tally (cells : Nat → α) (n : Nat) : Nat :=
  ((Finset.range n).filter fun i => mark (cells i)).card

theorem tally_congr {cells cells' : Nat → α} {n : Nat}
    (same : ∀ i < n, mark (cells i) ↔ mark (cells' i)) :
    tally mark cells n = tally mark cells' n := by
  unfold tally
  congr 1
  exact Finset.filter_congr fun i inside => same i (Finset.mem_range.mp inside)

theorem tally_le (cells : Nat → α) (n : Nat) : tally mark cells n ≤ n := by
  have bound := Finset.card_filter_le (Finset.range n) fun i => mark (cells i)
  rwa [Finset.card_range] at bound

theorem tally_eq_zero {cells : Nat → α} {n : Nat} (none : ∀ i < n, ¬ mark (cells i)) :
    tally mark cells n = 0 := by
  rw [tally, Finset.card_eq_zero, Finset.filter_eq_empty_iff]
  exact fun i inside => none i (Finset.mem_range.mp inside)

theorem tally_eq_sum (cells : Nat → α) (n : Nat) :
    tally mark cells n = ∑ i ∈ Finset.range n, if mark (cells i) then 1 else 0 :=
  Finset.card_filter _ _

/-- **Writing one cell**: the tally loses the old mark and gains the new one. -/
theorem tally_update {cells : Nat → α} {n i : Nat} (inside : i < n) (v : α) :
    tally mark (update cells i v) n + (if mark (cells i) then 1 else 0) =
      tally mark cells n + if mark v then 1 else 0 := by
  have member : i ∈ Finset.range n := Finset.mem_range.mpr inside
  have others : ∑ j ∈ (Finset.range n).erase i,
      (if mark (update cells i v j) then 1 else 0) =
        ∑ j ∈ (Finset.range n).erase i, if mark (cells j) then 1 else 0 := by
    refine Finset.sum_congr rfl fun j other => ?_
    rw [update_of_ne (Finset.ne_of_mem_erase other)]
  rw [tally_eq_sum, tally_eq_sum, ← Finset.add_sum_erase _ _ member,
    ← Finset.add_sum_erase (Finset.range n) (fun j => if mark (cells j) then 1 else 0) member,
    others, update_self]
  ring

theorem tally_mark {cells : Nat → α} {n i : Nat} {v : α} (inside : i < n)
    (before : ¬ mark (cells i)) (after : mark v) :
    tally mark (update cells i v) n = tally mark cells n + 1 := by
  have moved := @tally_update α mark _ cells n i inside v
  rwa [if_neg before, if_pos after, Nat.add_zero] at moved

theorem tally_unmark {cells : Nat → α} {n i : Nat} {v : α} (inside : i < n)
    (before : mark (cells i)) (after : ¬ mark v) :
    tally mark (update cells i v) n + 1 = tally mark cells n := by
  have moved := @tally_update α mark _ cells n i inside v
  rwa [if_pos before, if_neg after, Nat.add_zero] at moved

section Records

variable {ρ κ : Type} [DecidableEq κ] {key : ρ → κ}

theorem map_change_of_absent {records : List ρ} {k : κ} (absent : k ∉ records.map key)
    (change : ρ → ρ) : (records.map fun r => if key r = k then change r else r) = records := by
  refine (map_congr_left fun r member => ?_).trans (map_id records)
  refine if_neg fun (same : key r = k) => absent ?_
  exact same ▸ mem_map_of_mem member

/-- **Changing one record**: the sum loses what it weighed and gains what it weighs. -/
theorem sum_change {records : List ρ} (distinct : (records.map key).Nodup) {r : ρ}
    (member : r ∈ records) (change : ρ → ρ) (weight : ρ → Nat) :
    ((records.map fun other => if key other = key r then change other else other).map weight).sum +
        weight r =
      (records.map weight).sum + weight (change r) := by
  induction records with
  | nil => cases member
  | cons first rest ih =>
    obtain ⟨absent, distinctRest⟩ := nodup_cons.mp distinct
    simp only [map_cons, sum_cons]
    rcases mem_cons.mp member with rfl | later
    · rw [map_change_of_absent absent, if_pos rfl]
      omega
    · have other : key first ≠ key r := fun same => absent (same ▸ mem_map_of_mem later)
      have tail := ih distinctRest later
      rw [if_neg other]
      omega

end Records

end Tally
