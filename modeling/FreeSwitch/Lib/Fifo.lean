/-
**Several queues and one log.**

A log is a list of items, each with the queue it belongs to; `part` is what it says about one queue.
Where one log keeps, queue by queue, the order of another, it has no item more often.

* `nodup_of_parts`: what is in order queue by queue is there once, if it was put in once.
-/

import Mathlib

namespace Fifo

open List

variable {κ α : Type} [DecidableEq κ]

def part (i : κ) (log : List (κ × α)) : List α :=
  log.filterMap fun entry => if entry.1 = i then some entry.2 else none

@[simp] theorem part_append (i : κ) (first second : List (κ × α)) :
    part i (first ++ second) = part i first ++ part i second := filterMap_append

@[simp] theorem part_map_self (i : κ) (items : List α) : part i (items.map (i, ·)) = items := by
  simp [part, filterMap_map]

theorem part_map_other {i j : κ} (other : j ≠ i) (items : List α) :
    part i (items.map (j, ·)) = [] := by
  simp [part, filterMap_map, other]

theorem part_sublist {first second : List (κ × α)} (i : κ) (shorter : first.Sublist second) :
    (part i first).Sublist (part i second) := shorter.filterMap _

theorem count_part [DecidableEq α] (i : κ) (a : α) (log : List (κ × α)) :
    (part i log).count a = log.count (i, a) := by
  induction log with
  | nil => rfl
  | cons entry log ih =>
    obtain ⟨j, b⟩ := entry
    by_cases same : j = i
    · subst same
      simp [part, count_cons, ← ih]
    · simp [part, ← ih, same]

/-- **What keeps the order in every queue comes at most as often as it was put in.** -/
theorem nodup_of_parts [DecidableEq α] {done put : List (κ × α)}
    (order : ∀ i, (part i done).Sublist (part i put)) (distinct : put.Nodup) : done.Nodup := by
  rw [nodup_iff_count_le_one] at distinct ⊢
  rintro ⟨i, a⟩
  calc done.count (i, a) = (part i done).count a := (count_part i a done).symm
    _ ≤ (part i put).count a := (order i).count_le a
    _ = put.count (i, a) := count_part i a put
    _ ≤ 1 := distinct _

theorem mem_of_parts {done put : List (κ × α)}
    (order : ∀ i, (part i done).Sublist (part i put)) {entry : κ × α} (member : entry ∈ done) :
    entry ∈ put := by
  have among : entry.2 ∈ part entry.1 done :=
    mem_filterMap.mpr ⟨entry, member, if_pos rfl⟩
  obtain ⟨source, inside, same⟩ := mem_filterMap.mp ((order entry.1).subset among)
  split at same
  case isTrue here => exact (Prod.ext here (Option.some.inj same) : source = entry) ▸ inside
  case isFalse => cases same

end Fifo
