/-
**The byte buffer of `switch_buffer.c`.**

A buffer owns a block of memory. The bytes in use are a window of the block that starts at `head`;
what has been read stands in front of it until a write needs the room and moves the window to the
front of the block. A dynamic buffer then also asks `realloc` for a larger block, within `max_len`
where one is set.

* `SwitchBuffer`, `SwitchBuffer.write` and the other functions, as the source has them: lengths are
  of 64 bits, and `none` is a `switch_assert` that fails.
-/

import FreeSwitch.Lib.Unsigned
import FreeSwitch.Lib.Window

namespace FreeSwitch

open List Unsigned Window

/-! ### Memory -/

/-- The bytes of an object in memory. No object is larger than `PTRDIFF_MAX`. -/
structure Datum where
  bytes : List UInt8
  small : bytes.length < 2 ^ 63

/-- For which sizes `realloc` has a block, and what stands in the bytes that it adds. -/
structure Realloc where
  gives : Nat → Bool
  fresh : Nat → List UInt8
  fresh_length : ∀ n, (fresh n).length = n
  bounded : ∀ n, gives n = true → n < 2 ^ 63

/-- The block that `realloc` gives in place of another one. -/
def Realloc.resize (mem : Realloc) (block : List UInt8) (size : Nat) : List UInt8 :=
  block.take size ++ mem.fresh (size - block.length)

/-! ### The buffer -/

/-- `switch_buffer_t`: the bytes of the block, whether there is none, and the offset of `head`. -/
structure SwitchBuffer where
  data : List UInt8
  isNull : Bool
  head : Nat
  used : Nat
  actuallyUsed : Nat
  datalen : Nat
  maxLen : Nat
  blocksize : Nat
  dynamic : Bool

variable (b : SwitchBuffer)

namespace SwitchBuffer

/-- `switch_buffer_create`: the pool gives zeroed memory. -/
def create (maxLen : Nat) : SwitchBuffer where
  data := List.replicate maxLen 0
  isNull := false
  head := 0
  used := 0
  actuallyUsed := 0
  datalen := maxLen
  maxLen := 0
  blocksize := 0
  dynamic := false

/-- `switch_buffer_create_dynamic`: without `start_len` there is no block. -/
def createDynamic (blocksize startLen maxLen : Nat) : SwitchBuffer where
  data := List.replicate startLen 0
  isNull := startLen == 0
  head := 0
  used := 0
  actuallyUsed := 0
  datalen := startLen
  maxLen := maxLen
  blocksize := blocksize
  dynamic := true

/-- The bytes in use, from `head` on. -/
def contents (b : SwitchBuffer) : List UInt8 := view b.data b.head b.used

def freespace (b : SwitchBuffer) : Nat :=
  if b.dynamic then
    if b.maxLen ≠ 0 then sub 64 b.maxLen b.used else 1000000
  else sub 64 b.datalen b.used

def inuse (b : SwitchBuffer) : Nat := b.used

/-- How many bytes a call that asks for `datalen` of them gets. -/
def reading (datalen : Nat) : Nat :=
  if b.used < 1 then 0 else if datalen ≤ b.used then datalen else b.used

/-- `head` goes behind the bytes that were taken. -/
def advance (n : Nat) : SwitchBuffer :=
  { b with used := sub 64 b.used n, head := b.head + n }

/-- `switch_buffer_toss`: what is left in use. -/
def toss (datalen : Nat) : SwitchBuffer × Nat :=
  let after := b.advance (b.reading datalen)
  (after, after.used)

/-- `switch_buffer_read`: the bytes that are copied out. -/
def read (datalen : Nat) : SwitchBuffer × List UInt8 :=
  (b.advance (b.reading datalen), view b.data b.head (b.reading datalen))

def peek (datalen : Nat) : List UInt8 := view b.data b.head (b.reading datalen)

/-- `memmove` of the bytes in use to the front of the block. -/
def compact (b : SwitchBuffer) : SwitchBuffer :=
  { b with
    data := put b.data 0 (view b.data b.head b.used)
    head := 0
    actuallyUsed := b.used }

def room (b : SwitchBuffer) : Nat := sub 64 b.datalen b.used

/-- Whether a write of `n` bytes asks for a larger block. -/
def mayGrow (n : Nat) : Bool :=
  b.dynamic && (b.room < n && (b.maxLen == 0 || add 64 b.used n ≤ b.maxLen))

def newSize (b : SwitchBuffer) (n : Nat) : Nat :=
  let newSize := add 64 b.datalen n
  let newBlockSize := add 64 b.datalen b.blocksize
  if newSize < newBlockSize then newBlockSize else newSize

/-- The larger block; `head` is set to the front whatever `realloc` answers. -/
def grow (n : Nat) (mem : Realloc) : SwitchBuffer × Bool :=
  let b := { b with head := 0 }
  if mem.gives (b.newSize n) then
    ({ b with data := mem.resize b.data (b.newSize n), datalen := b.newSize n }, true)
  else (b, false)

/-- The end of `switch_buffer_write`: the bytes go behind those in use, where there is room. -/
def append (datum : Datum) : SwitchBuffer × Nat :=
  if b.room < datum.bytes.length then (b, 0)
  else
    let used := add 64 b.used datum.bytes.length
    ({ b with
      data := put b.data (b.head + b.used) datum.bytes
      used := used
      actuallyUsed := add 64 b.actuallyUsed datum.bytes.length }, used)

def write (datum : Datum) (mem : Realloc) : Option (SwitchBuffer × Nat) :=
  if b.isNull then none
  else if datum.bytes.length = 0 then some (b, b.used)
  else
    let b := if sub 64 b.datalen b.actuallyUsed < datum.bytes.length then b.compact else b
    if b.mayGrow datum.bytes.length then
      match b.grow datum.bytes.length mem with
      | (b, true) => some (b.append datum)
      | (b, false) => some (b, 0)
    else some (b.append datum)

def zero (b : SwitchBuffer) : Option SwitchBuffer :=
  if b.isNull then none else some { b with used := 0, actuallyUsed := 0, head := 0 }

def zwrite (datum : Datum) (first second : Realloc) : Option (SwitchBuffer × Nat) :=
  (b.write datum first).bind fun tried =>
    if tried.2 = 0 then tried.1.zero.bind fun b => b.write datum second else some tried

def slideWrite (datum : Datum) (first second : Realloc) : Option (SwitchBuffer × Nat) :=
  (b.write datum first).bind fun tried =>
    if tried.2 = 0 then (tried.1.toss datum.bytes.length).1.write datum second else some tried

/-! ### The queue -/

end SwitchBuffer

/-- The bytes in use, the size of the block, and how a dynamic buffer may get a larger one. -/
structure Queue where
  bytes : List UInt8
  datalen : Nat
  maxLen : Nat
  blocksize : Nat
  dynamic : Bool

namespace Queue

def newSize (q : Queue) (n : Nat) : Nat := max (q.datalen + n) (add 64 q.datalen q.blocksize)

def appended (q : Queue) (data : List UInt8) : Queue := { q with bytes := q.bytes ++ data }

/-- A write: nothing is refused where it fits the block, or where the buffer is dynamic, `max_len`
allows it and there is memory for it. -/
def write (q : Queue) (data : List UInt8) (mem : Realloc) : Option Queue :=
  let n := q.bytes.length + data.length
  if data = [] ∨ n ≤ q.datalen then some (q.appended data)
  else if q.dynamic ∧ (q.maxLen = 0 ∨ n ≤ q.maxLen) ∧ mem.gives (q.newSize data.length) then
    some { q.appended data with datalen := q.newSize data.length }
  else none

end Queue

namespace SwitchBuffer

def queue (b : SwitchBuffer) : Queue := ⟨b.contents, b.datalen, b.maxLen, b.blocksize, b.dynamic⟩

/-! ### The invariant -/

/-- The three lengths agree: `actually_used` is what stands in front of `head` and the bytes in use,
and lies within the block. -/
structure Valid (b : SwitchBuffer) : Prop where
  block : b.isNull = false
  size : b.data.length = b.datalen
  place : b.head + b.used = b.actuallyUsed
  within : b.actuallyUsed ≤ b.datalen
  small : b.datalen < 2 ^ 63

theorem create_valid {maxLen : Nat} (small : maxLen < 2 ^ 63) : (create maxLen).Valid where
  block := rfl
  size := length_replicate
  place := rfl
  within := Nat.zero_le _
  small := small

theorem createDynamic_valid {startLen : Nat} (blocksize maxLen : Nat) (some_ : 0 < startLen)
    (small : startLen < 2 ^ 63) : (createDynamic blocksize startLen maxLen).Valid where
  block := by
    show (startLen == 0) = false
    exact beq_false_of_ne some_.ne'
  size := length_replicate
  place := rfl
  within := Nat.zero_le _
  small := small

theorem reading_eq (n : Nat) : b.reading n = min n b.used := by
  unfold reading
  split
  · omega
  · split <;> omega

theorem view_reading (n : Nat) : view b.data b.head (b.reading n) = b.contents.take n := by
  rw [reading_eq, contents, view, view, take_take]

theorem peek_eq (n : Nat) : b.peek n = b.contents.take n := view_reading b n

section Functions

variable {b : SwitchBuffer} (valid : b.Valid)

include valid

theorem Valid.window : b.head + b.used ≤ b.data.length := by
  rw [valid.place, valid.size]
  exact valid.within

theorem Valid.contents_length : b.contents.length = b.used := view_length valid.window

theorem Valid.used_le : b.used ≤ b.datalen := by
  have place := valid.place
  have within := valid.within
  omega

theorem Valid.room_eq : b.room = b.datalen - b.used :=
  sub_of_le valid.used_le (by have := valid.small; omega)

theorem Valid.advance {n : Nat} (enough : n ≤ b.used) :
    (b.advance n).Valid ∧ (b.advance n).contents = b.contents.drop n := by
  have small := valid.small
  have place := valid.place
  have used : sub 64 b.used n = b.used - n :=
    sub_of_le enough (by have := valid.used_le; omega)
  refine ⟨{ valid with place := ?_, small := small }, ?_⟩
  · show b.head + n + sub 64 b.used n = b.actuallyUsed
    rw [used]
    omega
  · show view b.data (b.head + n) (sub 64 b.used n) = _
    rw [used]
    exact view_skip b.data b.head b.used n

theorem Valid.drop_reading (n : Nat) : b.contents.drop (b.reading n) = b.contents.drop n := by
  rw [reading_eq]
  by_cases enough : n ≤ b.used
  · rw [Nat.min_eq_left enough]
  · rw [Nat.min_eq_right (by omega), drop_eq_nil_of_le (by rw [valid.contents_length]),
      drop_eq_nil_of_le (by rw [valid.contents_length]; omega)]

theorem Valid.take (n : Nat) :
    (b.advance (b.reading n)).Valid ∧
      (b.advance (b.reading n)).queue = { b.queue with bytes := b.contents.drop n } := by
  have enough : b.reading n ≤ b.used := by
    rw [reading_eq]
    exact Nat.min_le_right _ _
  obtain ⟨after, rest⟩ := valid.advance enough
  rw [valid.drop_reading] at rest
  exact ⟨after, congrArg (fun bytes => { b.queue with bytes }) rest⟩

theorem Valid.compact : b.compact.Valid ∧ b.compact.queue = b.queue := by
  have window := valid.window
  refine ⟨⟨valid.block, ?_, Nat.zero_add _, valid.used_le, valid.small⟩,
    congrArg (fun bytes => { b.queue with bytes }) (view_front window)⟩
  show (put b.data 0 (view b.data b.head b.used)).length = b.datalen
  rw [put_length (by rw [view_length window]; omega), valid.size]

end Functions

/-! ### Growing -/

section Grow

variable {b : SwitchBuffer} {n : Nat}

theorem newSize_eq (valid : b.Valid) (small : n < 2 ^ 63) : b.newSize n = b.queue.newSize n := by
  have sum : add 64 b.datalen n = b.datalen + n :=
    add_of_lt (by have := valid.small; omega)
  show (if add 64 b.datalen n < add 64 b.datalen b.blocksize then
    add 64 b.datalen b.blocksize else add 64 b.datalen n) =
      max (b.datalen + n) (add 64 b.datalen b.blocksize)
  rw [sum]
  split <;> omega

theorem grow_given (valid : b.Valid) (front : b.head = 0) (small : n < 2 ^ 63) {mem : Realloc}
    (given : mem.gives (b.newSize n) = true) :
    ∃ c, b.grow n mem = (c, true) ∧ c.Valid ∧ c.actuallyUsed = b.actuallyUsed ∧
      c.queue = { b.queue with datalen := b.newSize n } := by
  have within := valid.within
  have still : ({ b with head := 0 } : SwitchBuffer) = b := by rw [← front]
  have larger : b.datalen + n ≤ b.newSize n := by
    rw [newSize_eq valid small]
    exact Nat.le_max_left _ _
  have block : mem.resize b.data (b.newSize n) =
      b.data ++ mem.fresh (b.newSize n - b.data.length) := by
    unfold Realloc.resize
    rw [take_of_length_le (by rw [valid.size]; omega)]
  unfold grow
  rw [still, if_pos given]
  refine ⟨_, rfl, ⟨valid.block, ?_, valid.place, ?_, mem.bounded _ given⟩, rfl,
    congrArg (fun bytes => { b.queue with bytes, datalen := b.newSize n }) ?_⟩
  · show (mem.resize b.data (b.newSize n)).length = b.newSize n
    rw [block, length_append, mem.fresh_length, valid.size]
    omega
  · show b.actuallyUsed ≤ b.newSize n
    omega
  · show view (mem.resize b.data (b.newSize n)) b.head b.used = b.contents
    rw [block]
    exact view_append valid.window _

end Grow

/-! ### Writing -/

section Write

variable {b : SwitchBuffer} {datum : Datum}

theorem append_fits (valid : b.Valid) (place : b.actuallyUsed + datum.bytes.length ≤ b.datalen) :
    ∃ after, b.append datum = (after, b.used + datum.bytes.length) ∧ after.Valid ∧
      after.queue = b.queue.appended datum.bytes := by
  have small := valid.small
  have along := valid.place
  have used : add 64 b.used datum.bytes.length = b.used + datum.bytes.length :=
    add_of_lt (by omega)
  have actually : add 64 b.actuallyUsed datum.bytes.length =
      b.actuallyUsed + datum.bytes.length := add_of_lt (by omega)
  have inside : b.head + b.used + datum.bytes.length ≤ b.data.length := by
    rw [valid.size]
    omega
  unfold append
  rw [valid.room_eq, if_neg (by omega), used, actually]
  refine ⟨_, rfl, ⟨valid.block, (put_length inside).trans valid.size, ?_, place, small⟩,
    congrArg (fun bytes => { b.queue with bytes }) (view_put inside)⟩
  show b.head + (b.used + datum.bytes.length) = b.actuallyUsed + datum.bytes.length
  omega

theorem append_full (valid : b.Valid) (full : b.datalen < b.used + datum.bytes.length) :
    b.append datum = (b, 0) := by
  have within := valid.used_le
  unfold append
  rw [valid.room_eq, if_pos (by omega)]

/-- What a write comes to: the queue after it, or the old one and the answer 0. -/
def Wrote (b : SwitchBuffer) (out : Option Queue) (result : Option (SwitchBuffer × Nat)) : Prop :=
  ∃ after, after.Valid ∧ after.queue = out.getD b.queue ∧
    result = some (after, out.elim 0 fun q => q.bytes.length)

theorem wrote_append (valid : b.Valid) (place : b.actuallyUsed + datum.bytes.length ≤ b.datalen) :
    Wrote b (some (b.queue.appended datum.bytes)) (some (b.append datum)) := by
  obtain ⟨after, appends, still, queue⟩ := append_fits valid place
  refine ⟨after, still, queue, ?_⟩
  rw [appends]
  simp [Queue.appended, SwitchBuffer.queue, valid.contents_length]

theorem mayGrow_iff (valid : b.Valid) :
    b.mayGrow datum.bytes.length = true ↔ b.datalen < b.used + datum.bytes.length ∧
      b.dynamic = true ∧ (b.maxLen = 0 ∨ b.used + datum.bytes.length ≤ b.maxLen) := by
  have within := valid.used_le
  have sum : add 64 b.used datum.bytes.length = b.used + datum.bytes.length :=
    add_of_lt (by have := valid.small; have := datum.small; omega)
  have order : b.datalen - b.used < datum.bytes.length ↔
      b.datalen < b.used + datum.bytes.length := by omega
  simp [mayGrow, valid.room_eq, sum, order, and_left_comm]

theorem wrote_front (valid : b.Valid) (front : b.head = 0) (filled : datum.bytes ≠ [])
    (mem : Realloc) :
    Wrote b (b.queue.write datum.bytes mem) (if b.mayGrow datum.bytes.length then
        match b.grow datum.bytes.length mem with
        | (b, true) => some (b.append datum)
        | (b, false) => some (b, 0)
      else some (b.append datum)) := by
  have along := valid.place
  have size : b.queue.bytes.length = b.used := valid.contents_length
  have none : Wrote b .none (some (b, 0)) := ⟨b, valid, rfl, rfl⟩
  unfold Queue.write
  simp only [filled, false_or, size]
  by_cases fits : b.used + datum.bytes.length ≤ b.queue.datalen
  · rw [if_pos fits, if_neg fun grows => absurd ((mayGrow_iff valid).mp grows).1 (not_lt.mpr fits)]
    exact wrote_append valid (by rw [← along, front, Nat.zero_add]; exact fits)
  · have full : b.datalen < b.used + datum.bytes.length := not_le.mp fits
    rw [if_neg fits]
    by_cases grows : b.mayGrow datum.bytes.length = true
    · obtain ⟨-, dynamic, limit⟩ := (mayGrow_iff valid).mp grows
      have same := newSize_eq valid datum.small
      rw [if_pos grows, ← same]
      by_cases given : mem.gives (b.newSize datum.bytes.length) = true
      · obtain ⟨c, grown, still, actually, queue⟩ := grow_given valid front datum.small given
        have room : c.actuallyUsed + datum.bytes.length ≤ c.datalen := by
          have larger : c.datalen = b.newSize datum.bytes.length := congrArg Queue.datalen queue
          rw [actually, larger, same, ← along, front, Nat.zero_add]
          exact (Nat.add_le_add_right valid.used_le _).trans (Nat.le_max_left _ _)
        rw [if_pos ⟨dynamic, limit, given⟩, grown]
        obtain ⟨after, last, total, runs⟩ := wrote_append still room
        rw [queue] at total runs
        exact ⟨after, last, total, runs⟩
      · have same : ({ b with head := 0 } : SwitchBuffer) = b := by rw [← front]
        rw [if_neg fun all => given all.2.2, grow, same, if_neg given]
        exact none
    · rw [if_neg fun all => grows ((mayGrow_iff valid).mpr ⟨full, all.1, all.2.1⟩), if_neg grows,
        append_full valid full]
      exact none

theorem write_queue (valid : b.Valid) (datum : Datum) (mem : Realloc) :
    Wrote b (b.queue.write datum.bytes mem) (b.write datum mem) := by
  have within := valid.within
  have along := valid.place
  have size : b.queue.bytes.length = b.used := valid.contents_length
  have free : sub 64 b.datalen b.actuallyUsed = b.datalen - b.actuallyUsed :=
    sub_of_le within (by have := valid.small; omega)
  unfold write
  rw [if_neg (by rw [valid.block]; nofun), free]
  by_cases filled : datum.bytes = []
  · rw [if_pos (by rw [filled]; rfl), Queue.write, if_pos (.inl filled), filled]
    refine ⟨b, valid, ?_, ?_⟩ <;> simp [Queue.appended, size]
  · rw [if_neg (by simpa using filled)]
    dsimp only
    split
    · -- no room behind what was read: the bytes in use are moved to the front first
      obtain ⟨front, queue⟩ := valid.compact
      obtain ⟨after, still, total, runs⟩ := wrote_front front rfl filled mem
      rw [queue] at total runs
      exact ⟨after, still, total, runs⟩
    next room =>
      rw [Queue.write, if_pos (.inr (by rw [size]; show _ ≤ b.datalen; omega)),
        if_neg fun grows => by have := (mayGrow_iff valid).mp grows; omega]
      exact wrote_append valid (by omega)

end Write

theorem Valid.zero {b : SwitchBuffer} (valid : b.Valid) :
    ∃ after, b.zero = some after ∧ after.Valid ∧ after.queue = { b.queue with bytes := [] } :=
  ⟨{ b with used := 0, actuallyUsed := 0, head := 0 }, if_neg (by rw [valid.block]; nofun),
    { valid with place := rfl, within := Nat.zero_le _ }, rfl⟩

end SwitchBuffer

end FreeSwitch
