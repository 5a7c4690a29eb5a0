/-
**A buffer is a queue of bytes.**

Seen from outside, the bytes in use are a list: writes append to it, reads and tosses take from its
front. `Queue.step` says so in terms of the list alone, and every function of a buffer is such a
step, whatever moving and growing it does on the way.

* **`buffer_is_queue`**: every run of calls on a new buffer.

A `switch_buffer_zwrite` of more than a buffer can hold empties it.
-/

import FreeSwitch.Buffer.Block

namespace FreeSwitch

open List Queue SwitchBuffer

/-! ### Calls -/

/-- What a call answers: the number it returns, and the bytes it copies out. -/
structure SwitchBuffer.Reply where
  count : Nat
  bytes : List UInt8

/-- A call, with what the calls of `realloc` in it answer. -/
inductive SwitchBuffer.Op
  | write (datum : Datum) (mem : Realloc)
  | zwrite (datum : Datum) (first second : Realloc)
  | slideWrite (datum : Datum) (first second : Realloc)
  | read (datalen : Nat)
  | peek (datalen : Nat)
  | toss (datalen : Nat)
  | zero

namespace SwitchBuffer

def Reply.ofBytes (bytes : List UInt8) : Reply := ⟨bytes.length, bytes⟩

def step (b : SwitchBuffer) : Op → Option (SwitchBuffer × Reply)
  | .write datum mem => (b.write datum mem).map fun out => (out.1, ⟨out.2, []⟩)
  | .zwrite datum first second => (b.zwrite datum first second).map fun out => (out.1, ⟨out.2, []⟩)
  | .slideWrite datum first second =>
    (b.slideWrite datum first second).map fun out => (out.1, ⟨out.2, []⟩)
  | .read datalen => some ((b.read datalen).1, .ofBytes (b.read datalen).2)
  | .peek datalen => some (b, .ofBytes (b.peek datalen))
  | .toss datalen => some ((b.toss datalen).1, ⟨(b.toss datalen).2, []⟩)
  | .zero => b.zero.map fun b => (b, ⟨0, []⟩)

def run (b : SwitchBuffer) : List Op → Option (SwitchBuffer × List Reply)
  | [] => some (b, [])
  | op :: ops =>
    (b.step op).bind fun first =>
      (first.1.run ops).map fun rest => (rest.1, first.2 :: rest.2)

inductive New : SwitchBuffer → Prop
  | create {maxLen : Nat} (small : maxLen < 2 ^ 63) : New (create maxLen)
  | createDynamic {startLen : Nat} (blocksize maxLen : Nat) (some_ : 0 < startLen)
      (small : startLen < 2 ^ 63) : New (createDynamic blocksize startLen maxLen)

end SwitchBuffer

/-! ### The queue -/

namespace Queue

open SwitchBuffer

/-- A write: what is refused leaves the queue and is answered by 0, anything else by the number of
bytes in the queue. -/
def add (q : Queue) (data : List UInt8) (mem : Realloc) : Queue × Reply :=
  (q.write data mem).elim (q, ⟨0, []⟩) fun q => (q, ⟨q.bytes.length, []⟩)

def keep (q : Queue) (bytes : List UInt8) : Queue := { q with bytes }

/-- Where a write is answered by 0, the contents are changed and it is tried again. -/
def addTwice (q : Queue) (change : List UInt8 → List UInt8) (data : List UInt8)
    (first second : Realloc) : Queue × Reply :=
  let tried := q.add data first
  if tried.2.count = 0 then (tried.1.keep (change tried.1.bytes)).add data second else tried

def step (q : Queue) : Op → Queue × Reply
  | .write datum mem => q.add datum.bytes mem
  -- what is refused replaces the contents, or leaves none where the empty queue refuses it too
  | .zwrite datum first second => q.addTwice (fun _ => []) datum.bytes first second
  | .slideWrite datum first second =>
    q.addTwice (·.drop datum.bytes.length) datum.bytes first second
  | .read datalen => (q.keep (q.bytes.drop datalen), .ofBytes (q.bytes.take datalen))
  | .peek datalen => (q, .ofBytes (q.bytes.take datalen))
  | .toss datalen => (q.keep (q.bytes.drop datalen), ⟨(q.bytes.drop datalen).length, []⟩)
  | .zero => (q.keep [], ⟨0, []⟩)

def run (q : Queue) : List Op → Queue × List Reply
  | [] => (q, [])
  | op :: ops => (((q.step op).1.run ops).1, (q.step op).2 :: ((q.step op).1.run ops).2)

variable {q : Queue} {data : List UInt8} {mem : Realloc}

theorem add_frame (q : Queue) (data : List UInt8) (mem : Realloc) :
    (q.add data mem).1.maxLen = q.maxLen ∧ (q.add data mem).1.dynamic = q.dynamic ∧
      (q.dynamic = false → (q.add data mem).1.datalen = q.datalen) := by
  unfold add write
  dsimp only
  split_ifs with fits grows
  · exact ⟨rfl, rfl, fun _ => rfl⟩
  · exact ⟨rfl, rfl, fun fixed => absurd grows.1 (by rw [fixed]; nofun)⟩
  · exact ⟨rfl, rfl, fun _ => rfl⟩

theorem step_frame (q : Queue) (op : Op) :
    (q.step op).1.maxLen = q.maxLen ∧ (q.step op).1.dynamic = q.dynamic ∧
      (q.dynamic = false → (q.step op).1.datalen = q.datalen) := by
  have twice (change : List UInt8 → List UInt8) (data : List UInt8) (first second : Realloc) :
      (q.addTwice change data first second).1.maxLen = q.maxLen ∧
        (q.addTwice change data first second).1.dynamic = q.dynamic ∧
        (q.dynamic = false → (q.addTwice change data first second).1.datalen = q.datalen) := by
    obtain ⟨maxLen, dynamic, datalen⟩ := add_frame q data first
    unfold addTwice
    dsimp only
    split
    · obtain ⟨maxLen', dynamic', datalen'⟩ := add_frame
        ((q.add data first).1.keep (change (q.add data first).1.bytes)) data second
      exact ⟨maxLen'.trans maxLen, dynamic'.trans dynamic, fun fixed =>
        (datalen' (dynamic.trans fixed)).trans (datalen fixed)⟩
    · exact ⟨maxLen, dynamic, datalen⟩
  cases op with
  | write datum mem => exact add_frame q datum.bytes mem
  | zwrite datum first second => exact twice _ _ _ _
  | slideWrite datum first second => exact twice _ _ _ _
  | _ => exact ⟨rfl, rfl, fun _ => rfl⟩

theorem add_fixed (fixed : q.dynamic = false) (data : List UInt8) (mem : Realloc) :
    q.add data mem = if data = [] ∨ q.bytes.length + data.length ≤ q.datalen then
      (q.appended data, ⟨(q.bytes ++ data).length, []⟩) else (q, ⟨0, []⟩) := by
  unfold add write
  simp only [fixed, Bool.false_eq_true, false_and, if_false]
  split <;> rfl

/-- **Bytes that slide into a fixed buffer**: for what fits the empty buffer there is always room once
as many bytes are gone. -/
theorem slideWrite_fixed (fixed : q.dynamic = false) (within : q.bytes.length ≤ q.datalen)
    {datum : Datum} (small : datum.bytes.length ≤ q.datalen) (filled : datum.bytes ≠ [])
    (first second : Realloc) :
    (q.step (.slideWrite datum first second)).2.count ≠ 0 ∧
      (q.step (.slideWrite datum first second)).1.bytes =
        (if q.bytes.length + datum.bytes.length ≤ q.datalen then q.bytes
          else q.bytes.drop datum.bytes.length) ++ datum.bytes := by
  have positive : ∀ bytes : List UInt8, (bytes ++ datum.bytes).length ≠ 0 := by simp [filled]
  have kept : (q.keep (q.bytes.drop datum.bytes.length)).dynamic = false := fixed
  have room : (q.bytes.drop datum.bytes.length).length + datum.bytes.length ≤ q.datalen := by
    rw [length_drop]
    omega
  have first := add_fixed fixed datum.bytes first
  rw [step, addTwice]
  by_cases fits : q.bytes.length + datum.bytes.length ≤ q.datalen
  · rw [if_pos (.inr fits)] at first
    rw [first, if_pos fits]
    dsimp only
    rw [if_neg (positive q.bytes)]
    exact ⟨positive q.bytes, rfl⟩
  · rw [if_neg (not_or.mpr ⟨filled, fits⟩)] at first
    rw [first, if_neg fits]
    show ((q.keep _).add datum.bytes second).2.count ≠ 0 ∧
      ((q.keep _).add datum.bytes second).1.bytes = _
    rw [add_fixed kept, if_pos (.inr room)]
    exact ⟨positive _, rfl⟩

end Queue

/-! ### Every call is a step of the queue -/

namespace SwitchBuffer

variable {b : SwitchBuffer}

/-- A call that leaves the queue and gives the reply of `out`. -/
def Answers (out : Queue × Reply) (result : Option (SwitchBuffer × Nat)) : Prop :=
  ∃ after count, result = some (after, count) ∧ after.Valid ∧ (after.queue, ⟨count, []⟩) = out

theorem write_answers (valid : b.Valid) (datum : Datum) (mem : Realloc) :
    Answers (b.queue.add datum.bytes mem) (b.write datum mem) := by
  obtain ⟨after, still, queue, runs⟩ := write_queue valid datum mem
  refine ⟨after, _, runs, still, ?_⟩
  unfold add
  cases out : b.queue.write datum.bytes mem <;> rw [out] at queue <;> rw [queue] <;> rfl

theorem answers_twice (valid : b.Valid) (datum : Datum) (first second : Realloc)
    (again : SwitchBuffer → Option (SwitchBuffer × Nat)) {change : List UInt8 → List UInt8}
    (retries : ∀ tried : SwitchBuffer, tried.Valid → Answers
      ((tried.queue.keep (change tried.queue.bytes)).add datum.bytes second) (again tried)) :
    Answers (b.queue.addTwice change datum.bytes first second)
      ((b.write datum first).bind fun tried => if tried.2 = 0 then again tried.1 else some tried) := by
  obtain ⟨tried, count, runs, still, written⟩ := write_answers valid datum first
  rw [runs, Option.bind_some, addTwice, ← written]
  dsimp only
  split
  · exact retries tried still
  · exact ⟨tried, count, rfl, still, rfl⟩

theorem zwrite_answers (valid : b.Valid) (datum : Datum) (first second : Realloc) :
    Answers (b.queue.addTwice (fun _ => []) datum.bytes first second)
      (b.zwrite datum first second) := by
  refine answers_twice valid datum first second
    (fun tried => tried.zero.bind fun b => b.write datum second) fun tried still => ?_
  obtain ⟨zeroed, runs, clean, queue⟩ := still.zero
  have written := write_answers clean datum second
  rw [runs, Option.bind_some]
  rwa [queue] at written

theorem slideWrite_answers (valid : b.Valid) (datum : Datum) (first second : Realloc) :
    Answers (b.queue.addTwice (·.drop datum.bytes.length) datum.bytes first second)
      (b.slideWrite datum first second) := by
  refine answers_twice valid datum first second
    (fun tried => (tried.toss datum.bytes.length).1.write datum second) fun tried still => ?_
  obtain ⟨tossed, queue⟩ := still.take datum.bytes.length
  have written := write_answers tossed datum second
  rwa [queue] at written

/-- **Every call is a step of the queue**, and leaves the lengths in agreement. -/
theorem step_queue (valid : b.Valid) (op : Op) :
    ∃ after reply, b.step op = some (after, reply) ∧ after.Valid ∧
      (after.queue, reply) = b.queue.step op := by
  have answered {out : Queue × Reply} {result : Option (SwitchBuffer × Nat)}
      (answers : Answers out result) : ∃ after reply,
        result.map (fun out => (out.1, (⟨out.2, []⟩ : Reply))) = some (after, reply) ∧
        after.Valid ∧ (after.queue, reply) = out := by
    obtain ⟨after, count, rfl, still, same⟩ := answers
    exact ⟨after, ⟨count, []⟩, rfl, still, same⟩
  cases op with
  | write datum mem => exact answered (write_answers valid datum mem)
  | zwrite datum first second => exact answered (zwrite_answers valid datum first second)
  | slideWrite datum first second => exact answered (slideWrite_answers valid datum first second)
  | read n =>
    obtain ⟨still, queue⟩ := valid.take n
    refine ⟨_, _, rfl, still, ?_⟩
    show ((b.advance (b.reading n)).queue, _) = _
    rw [queue, Reply.ofBytes, SwitchBuffer.read, view_reading]
    rfl
  | peek n =>
    refine ⟨b, _, rfl, valid, ?_⟩
    rw [peek_eq]
    rfl
  | toss n =>
    obtain ⟨still, queue⟩ := valid.take n
    refine ⟨_, _, rfl, still, ?_⟩
    show ((b.advance (b.reading n)).queue, Reply.mk (b.advance (b.reading n)).used []) = _
    rw [← still.contents_length, show (b.advance (b.reading n)).contents = b.contents.drop n from
      congrArg bytes queue, queue]
    rfl
  | zero =>
    obtain ⟨after, runs, still, queue⟩ := valid.zero
    exact ⟨after, ⟨0, []⟩, by rw [step, runs]; rfl, still, by rw [queue]; rfl⟩

theorem run_queue (valid : b.Valid) (ops : List Op) :
    ∃ after, b.run ops = some (after, (b.queue.run ops).2) ∧ after.Valid ∧
      after.queue = (b.queue.run ops).1 := by
  induction ops generalizing b with
  | nil => exact ⟨b, rfl, valid, rfl⟩
  | cons op ops ih =>
    obtain ⟨between, reply, runs, still, first⟩ := step_queue valid op
    obtain ⟨after, others, last, rest⟩ := ih still
    rw [Queue.run, ← first]
    exact ⟨after, by rw [run, runs, Option.bind_some, others]; rfl, last, rest⟩

theorem New.valid (new : New b) : b.Valid ∧ b.contents = [] := by
  cases new with
  | create small => exact ⟨create_valid small, rfl⟩
  | createDynamic blocksize maxLen some_ small =>
    exact ⟨createDynamic_valid blocksize maxLen some_ small, rfl⟩

end SwitchBuffer

/-! ### Runs -/

theorem Queue.run_frame (q : Queue) (ops : List Op) :
    (q.run ops).1.dynamic = q.dynamic ∧
      (q.dynamic = false → (q.run ops).1.datalen = q.datalen) := by
  induction ops generalizing q with
  | nil => exact ⟨rfl, fun _ => rfl⟩
  | cons op ops ih =>
    obtain ⟨-, dynamic, datalen⟩ := q.step_frame op
    obtain ⟨dynamic', datalen'⟩ := ih (q.step op).1
    exact ⟨dynamic'.trans dynamic, fun fixed =>
      (datalen' (dynamic.trans fixed)).trans (datalen fixed)⟩

/-- **A buffer is a queue of bytes.** On every new buffer, fixed or dynamic, every sequence of calls
runs without a failed assertion; its answers and the contents afterwards are those of a queue that
starts empty, the three lengths agree, and what fits a fixed buffer slides into it. -/
theorem buffer_is_queue {b : SwitchBuffer} (new : b.New) (ops : List Op) :
    b.queue.bytes = [] ∧
    ∃ after, b.run ops = some (after, (b.queue.run ops).2) ∧ after.queue = (b.queue.run ops).1 ∧
      (after.head + after.used = after.actuallyUsed ∧ after.actuallyUsed ≤ after.datalen ∧
        after.data.length = after.datalen) ∧
      ∀ (datum : Datum) (first second : Realloc), b.dynamic = false →
        datum.bytes.length ≤ b.datalen → datum.bytes ≠ [] →
        ∃ next reply, after.step (.slideWrite datum first second) = some (next, reply) ∧
          reply.count ≠ 0 ∧ next.contents =
            (if after.contents.length + datum.bytes.length ≤ b.datalen then after.contents
              else after.contents.drop datum.bytes.length) ++ datum.bytes := by
  obtain ⟨valid, empty⟩ := new.valid
  obtain ⟨after, runs, still, queue⟩ := run_queue valid ops
  refine ⟨empty, after, runs, queue, ⟨still.place, still.within, still.size⟩, ?_⟩
  intro datum first second fixed small filled
  obtain ⟨dynamic, datalen⟩ := b.queue.run_frame ops
  obtain ⟨next, reply, slides, -, same⟩ := step_queue still (.slideWrite datum first second)
  have size : after.queue.datalen = b.datalen := by rw [queue, datalen fixed]; rfl
  have slid := slideWrite_fixed (q := after.queue) (by rw [queue, dynamic]; exact fixed)
    (still.contents_length.trans_le still.used_le) (by rwa [size]) filled first second
  rw [← same, size] at slid
  exact ⟨next, reply, slides, slid⟩

theorem zeros_length (n : Nat) : (List.replicate n (0 : UInt8)).length = n := length_replicate

/-- A `realloc` that has nothing. -/
def noMemory : Realloc where
  gives _ := false
  fresh n := List.replicate n 0
  fresh_length := zeros_length
  bounded _ := nofun

/-- Three bytes, of which one is read, in a buffer of four, and then three more that slide in: they
are the contents. -/
theorem buffer_is_queue_slide :
    (create 4).New ∧ ∃ after next reply, ((create 4).run
        [.write ⟨[1, 2, 3], by decide⟩ noMemory, .read 1] = some (after, [⟨3, []⟩, ⟨1, [1]⟩])) ∧
      after.step (.slideWrite ⟨[4, 5, 6], by decide⟩ noMemory noMemory) = some (next, reply) ∧
      reply.count ≠ 0 ∧ next.contents = [4, 5, 6] := by
  have new : (create 4).New := .create (by decide)
  obtain ⟨-, after, runs, queue, -, slides⟩ :=
    buffer_is_queue new [.write ⟨[1, 2, 3], by decide⟩ noMemory, .read 1]
  have contents : after.contents = [2, 3] := congrArg bytes queue
  obtain ⟨next, reply, slide, count, bytes⟩ := slides ⟨[4, 5, 6], by decide⟩ noMemory noMemory rfl
    (by decide) (by decide)
  rw [contents] at bytes
  exact ⟨new, after, next, reply, runs, slide, count, bytes⟩

/-- **What fits no empty buffer either is not written, and the contents are gone**: two bytes are
`zwrite`n into a buffer of one byte that holds a byte. -/
theorem zwrite_empties : ((create 1).run
        [.write ⟨[7], by decide⟩ noMemory, .zwrite ⟨[1, 2], by decide⟩ noMemory noMemory]).map
      (fun out => (out.1.contents, out.2.map Reply.count)) = some ([], [1, 0]) := by
  decide +kernel

end FreeSwitch
