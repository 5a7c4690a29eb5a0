/-
**A window into a block of cells.**

A queue that lives in a block of memory is the window of its cells: `view block head n` are the `n`
cells from `head` on. `put` is `memcpy` to a place in the block.

* `view_put`: what is put right behind a window extends it;
* `view_front`: a window that is moved to the front of the block shows the same cells;
* `view_append`: a block that grows keeps its windows;
* `view_skip`: a window that starts later shows less.
-/

import Mathlib

namespace Window

open List

variable {α : Type}

/-- The `n` cells from `head` on. -/
def view (block : List α) (head n : Nat) : List α := (block.drop head).take n

/-- `memcpy` of `data` to the place `place` of a block. -/
def put (block : List α) (place : Nat) (data : List α) : List α :=
  block.take place ++ data ++ block.drop (place + data.length)

variable {block : List α} {head n : Nat}

theorem view_length (within : head + n ≤ block.length) : (view block head n).length = n := by
  unfold view
  rw [length_take, length_drop]
  omega

theorem put_length {place : Nat} {data : List α} (within : place + data.length ≤ block.length) :
    (put block place data).length = block.length := by
  unfold put
  simp only [length_append, length_take, length_drop]
  omega

theorem view_put {data : List α} (within : head + n + data.length ≤ block.length) :
    view (put block (head + n) data) head (n + data.length) = view block head n ++ data := by
  have front : (block.take (head + n)).length = head + n := by
    rw [length_take]
    omega
  have cells : (block.take (head + n)).drop head = view block head n := by
    unfold view
    rw [drop_take, Nat.add_sub_cancel_left]
  have size : (view block head n ++ data).length = n + data.length := by
    rw [length_append, view_length (by omega)]
  unfold put
  rw [view, append_assoc, drop_append_of_le_length (by omega), cells,
    ← append_assoc, ← size]
  exact take_left

theorem view_front (within : head + n ≤ block.length) :
    view (put block 0 (view block head n)) 0 n = view block head n := by
  have size := view_length within
  have shape : put block 0 (view block head n) = view block head n ++ block.drop n := by
    unfold put
    rw [take_zero, nil_append, Nat.zero_add, size]
  have whole : (view block head n ++ block.drop n).take (view block head n).length =
      view block head n := take_left
  rw [size] at whole
  rw [shape, view, drop_zero, whole]

theorem view_append (within : head + n ≤ block.length) (more : List α) :
    view (block ++ more) head n = view block head n := by
  unfold view
  rw [drop_append_of_le_length (by omega), take_append_of_le_length]
  rw [length_drop]
  omega

theorem view_skip (block : List α) (head n k : Nat) :
    view block (head + k) (n - k) = (view block head n).drop k := by
  unfold view
  rw [drop_take, drop_drop]

end Window
