/-
**The limit of a dynamic buffer.**

`max_len` is tested only where a write asks for a larger block. A block may be larger than
`max_len`, since its size goes up by `blocksize` or by its whole old size, and a write that fits such
a block is not tested at all.

* **`within_limit_iff`**: the buffer stays within its limit exactly in the runs without such a
  write of too much.
-/

import FreeSwitch.Lib.Run
import FreeSwitch.Buffer.Queue

namespace FreeSwitch

open List

namespace SwitchBuffer

inductive Access
  | write (datum : Datum) (mem : Realloc)
  | read (datalen : Nat)
  | toss (datalen : Nat)

def Access.op : Access → Op
  | .write datum mem => .write datum mem
  | .read datalen => .read datalen
  | .toss datalen => .toss datalen

def next (b : SwitchBuffer) (access : Access) : SwitchBuffer :=
  ((b.step access.op).map Prod.fst).getD b

/-- The bytes in use stay within `max_len`, and the rest is the free space. -/
def Within (b : SwitchBuffer) : Prop := b.used ≤ b.maxLen ∧ b.freespace + b.used = b.maxLen

/-- A write that fits the block as it is also fits `max_len`. -/
def Tested (b : SwitchBuffer) : Access → Prop
  | .write datum _ =>
    datum.bytes.length ≤ b.datalen - b.used → b.used + datum.bytes.length ≤ b.maxLen
  | _ => True

structure Limited (b : SwitchBuffer) : Prop where
  dynamic : b.dynamic = true
  some_ : b.maxLen ≠ 0
  small : b.maxLen < 2 ^ 64
  valid : b.Valid ∨ b.isNull = true ∧ b.used = 0 ∧ b.datalen = 0

variable {b : SwitchBuffer}

theorem Limited.within_iff (limited : b.Limited) : b.Within ↔ b.used ≤ b.maxLen := by
  refine ⟨And.left, fun order => ⟨order, ?_⟩⟩
  unfold freespace
  rw [if_pos limited.dynamic, if_pos limited.some_, Unsigned.sub_of_le order limited.small]
  omega

theorem next_null (null : b.isNull = true) (empty : b.used = 0) (access : Access) :
    (b.next access).isNull = true ∧ (b.next access).used = 0 ∧
      (b.next access).datalen = b.datalen ∧ (b.next access).maxLen = b.maxLen ∧
      (b.next access).dynamic = b.dynamic := by
  have nothing : ∀ n, Unsigned.sub 64 b.used (b.reading n) = 0 := by
    intro n
    rw [reading_eq, empty, Nat.min_zero]
    decide
  cases access with
  | write datum mem =>
    have aborts : b.write datum mem = none := if_pos null
    have same : b.next (.write datum mem) = b := by
      rw [next, Access.op, step, aborts]
      rfl
    rw [same]
    exact ⟨null, empty, rfl, rfl, rfl⟩
  | read n | toss n => exact ⟨null, nothing n, rfl, rfl, rfl⟩

theorem next_valid (valid : b.Valid) (access : Access) :
    (b.next access).Valid ∧ (b.next access).queue = (b.queue.step access.op).1 := by
  obtain ⟨after, reply, runs, still, same⟩ := step_queue valid access.op
  rw [next, runs, ← same]
  exact ⟨still, rfl⟩

theorem Limited.next (limited : b.Limited) (access : Access) :
    (b.next access).Limited := by
  have framed (maxLen : (b.next access).maxLen = b.maxLen)
      (dynamic : (b.next access).dynamic = b.dynamic) (valid : (b.next access).Valid ∨
        (b.next access).isNull = true ∧ (b.next access).used = 0 ∧ (b.next access).datalen = 0) :
      (b.next access).Limited :=
    ⟨dynamic.trans limited.dynamic, maxLen ▸ limited.some_, maxLen ▸ limited.small, valid⟩
  rcases limited.valid with valid | ⟨null, empty, blockless⟩
  · obtain ⟨still, queue⟩ := next_valid valid access
    obtain ⟨maxLen, dynamic, -⟩ := b.queue.step_frame access.op
    rw [← queue] at maxLen dynamic
    exact framed maxLen dynamic (.inl still)
  · obtain ⟨still, nothing, size, maxLen, dynamic⟩ := next_null null empty access
    exact framed maxLen dynamic (.inr ⟨still, nothing, size.trans blockless⟩)

/-- **A call keeps the limit exactly when it is tested.** -/
theorem Limited.within_next (limited : b.Limited) (within : b.Within) (access : Access) :
    (b.next access).Within ↔ b.Tested access := by
  rw [(limited.next access).within_iff]
  have order := limited.within_iff.mp within
  rcases limited.valid with valid | ⟨null, empty, blockless⟩
  · obtain ⟨still, queue⟩ := next_valid valid access
    have maxLen : (b.next access).maxLen = b.maxLen :=
      (congrArg Queue.maxLen queue).trans (b.queue.step_frame access.op).1
    have used : (b.next access).used = (b.queue.step access.op).1.bytes.length := by
      rw [← queue]
      exact still.contents_length.symm
    have size : b.queue.bytes.length = b.used := valid.contents_length
    have some_ : ¬ b.queue.maxLen = 0 := limited.some_
    rw [maxLen, used]
    cases access with
    | write datum mem =>
      have within := valid.used_le
      show ((b.queue.add datum.bytes mem).1.bytes.length ≤ b.maxLen) ↔
        (datum.bytes.length ≤ b.datalen - b.used → b.used + datum.bytes.length ≤ b.maxLen)
      unfold Queue.add Queue.write
      simp only [some_, false_or, size]
      split_ifs with fits grows
      · show (b.queue.bytes ++ datum.bytes).length ≤ b.maxLen ↔ _
        rw [length_append, size]
        refine ⟨fun small _ => small, fun tested => ?_⟩
        rcases fits with none | fits
        · rwa [none]
        · exact tested (Nat.le_sub_of_add_le' fits)
      · show (b.queue.bytes ++ datum.bytes).length ≤ b.maxLen ↔ _
        rw [length_append, size]
        exact iff_of_true grows.2.1 fun _ => grows.2.1
      · refine iff_of_true (size.trans_le order) fun room => ?_
        exact absurd (.inr (Nat.add_le_of_le_sub' within room)) fits
    | read n | toss n =>
      refine iff_of_true ?_ trivial
      show (b.queue.bytes.drop n).length ≤ b.maxLen
      rw [length_drop, size]
      omega
  · obtain ⟨-, nothing, -⟩ := next_null null empty access
    refine iff_of_true (by omega) ?_
    cases access with
    | write datum mem =>
      show datum.bytes.length ≤ b.datalen - b.used → b.used + datum.bytes.length ≤ b.maxLen
      intro fits
      omega
    | read n => trivial
    | toss n => trivial

theorem createDynamic_limited {startLen maxLen : Nat} (blocksize : Nat) (some_ : 0 < maxLen)
    (small : maxLen < 2 ^ 64) (given : startLen < 2 ^ 63) :
    (createDynamic blocksize startLen maxLen).Limited := by
  refine ⟨rfl, some_.ne', small, ?_⟩
  by_cases blockless : startLen = 0
  · subst blockless
    exact .inr ⟨rfl, rfl, rfl⟩
  · exact .inl (createDynamic_valid blocksize maxLen (Nat.pos_of_ne_zero blockless) given)

end SwitchBuffer

open Run SwitchBuffer

/-- **The limit of a dynamic buffer.** From a new dynamic buffer with a `max_len`, whatever its
block size and its first block, and through every sequence of writes, reads and tosses: the bytes in
use stay within `max_len`, and the free space does not underflow, exactly when no write that exceeds
`max_len` finds room in the block. -/
theorem within_limit_iff (blocksize startLen maxLen : Nat) (some_ : 0 < maxLen)
    (small : maxLen < 2 ^ 64) (given : startLen < 2 ^ 63) (accesses : List Access) :
    (∀ done, done <+: accesses → (run next (createDynamic blocksize startLen maxLen) done).Within) ↔
      Along next Tested (createDynamic blocksize startLen maxLen) accesses := by
  have limited := createDynamic_limited blocksize some_ small given
  refine always_iff_along (I := Limited) (P := Within) (fun b access inv => inv.next access)
    (fun b access inv within => inv.within_next within access) limited ?_
  rw [limited.within_iff]
  exact Nat.zero_le _

/-- A `realloc` that has every size. -/
def allMemory : Realloc where
  gives n := n < 2 ^ 63
  fresh n := List.replicate n 0
  fresh_length := zeros_length
  bounded _ := of_decide_eq_true

/-- A buffer of at most four bytes whose block grows by two: three bytes are taken, three more are
not. -/
theorem within_limit_iff_four :
    0 < 4 ∧ 4 < 2 ^ 64 ∧ 2 < 2 ^ 63 ∧ ∀ done, done <+: [
        Access.write ⟨[1, 2, 3], by decide⟩ allMemory, .write ⟨[4, 5, 6], by decide⟩ allMemory] →
      (run next (createDynamic 2 2 4) done).Within := by
  refine ⟨by decide, by decide, by decide, ?_⟩
  rw [within_limit_iff 2 2 4 (by decide) (by decide) (by decide)]
  refine ⟨?_, ?_, trivial⟩
  · show 3 ≤ 2 - 0 → 0 + 3 ≤ 4
    decide
  · show 3 ≤ _ → _
    decide +kernel

/-- **A block larger than `max_len` takes more than `max_len` bytes.** The block of a buffer with a
limit of ten bytes grows by a hundred for the first two bytes, and fifty more fit it. -/
theorem block_beyond_limit :
    let b := run next (createDynamic 100 1 10)
      [.write ⟨[1, 2], by decide⟩ allMemory,
        .write ⟨List.replicate 50 0, by decide⟩ allMemory]
    b.used = 52 ∧ b.maxLen = 10 ∧ b.freespace = 2 ^ 64 - 42 ∧ ¬ b.Within := by
  have used : (run next (createDynamic 100 1 10)
      [.write ⟨[1, 2], by decide⟩ allMemory,
        .write ⟨List.replicate 50 0, by decide⟩ allMemory]).used = 52 := by decide +kernel
  refine ⟨used, by decide +kernel, by decide +kernel, fun within => ?_⟩
  have order := within.1
  rw [used] at order
  revert order
  decide +kernel

end FreeSwitch
