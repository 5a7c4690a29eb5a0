/-
**The packet buffer of an ESL connection, from `esl_buffer.c`.**

What the socket gives is written behind what is there, and packets are read from the front. The
memory of the buffer is split in three: the bytes that have been read, those in use, and those
behind, which keep what they once held (`EslBuffer`). When the room behind runs out, the bytes in use
are moved to the front (`compact`), and only then is the memory grown.
-/

import FreeSwitch.Lib.CString

namespace FreeSwitch

open CString List

/-! ### The buffer -/

structure Heap where
  /-- `malloc` has so many bytes. -/
  alloc : Nat → Bool
  /-- `realloc` has so many bytes. -/
  realloc : Nat → Bool
  /-- What stands in the bytes that `realloc` adds. -/
  grown : Nat → Text
  grown_length : ∀ n, (grown n).length = n
  outside : Char

def Heap.Grows (heap : Heap) : Prop := ∀ n, heap.realloc n = true

/-- `esl_buffer_t`: the memory up to `head`, the `used` bytes from there on, and the rest of
`datalen`. -/
structure EslBuffer where
  consumed : Text
  valid : Text
  behind : Text

variable (heap : Heap) (blocksize : Nat) (b : EslBuffer)

namespace EslBuffer

/-- `esl_buffer_create`: zeroed memory. -/
def create (startLen : Nat) : EslBuffer := ⟨[], [], List.replicate startLen '\x00'⟩

def compact (b : EslBuffer) : EslBuffer :=
  ⟨[], b.valid, (b.consumed ++ b.valid ++ b.behind).drop b.valid.length⟩

/-- The second half of `esl_buffer_write`: the bytes go behind those in use, in memory that is grown
where too small. No caller asks whether they were written. -/
def append (data : Text) : EslBuffer :=
  if data.length ≤ b.behind.length then
    ⟨b.consumed, b.valid ++ data, b.behind.drop data.length⟩
  else
    let growth := max data.length blocksize
    if heap.realloc (b.valid.length + b.behind.length + growth) then
      ⟨b.consumed, b.valid ++ data, (b.behind ++ heap.grown growth).drop data.length⟩
    else b

/-- `esl_buffer_write`, for a buffer without `max_len`. -/
def write (data : Text) : EslBuffer :=
  if data = [] then b
  else (if b.behind.length < data.length then b.compact else b).append heap blocksize data

/-- `esl_buffer_read`: at most what is in use. -/
def read (datalen : Nat) : Text × EslBuffer :=
  (b.valid.take datalen, ⟨b.consumed ++ b.valid.take datalen, b.valid.drop datalen, b.behind⟩)

def next (b : EslBuffer) : Char := b.behind.headD heap.outside

end EslBuffer

/-- How many bytes behind a line feed belong to the end of a packet: a line feed, or one behind a
carriage return. -/
def blankLine (t : Text) : Option Nat :=
  if t.head? = some '\n' then some 1
  else if t.head? = some '\r' ∧ t[1]? = some '\n' then some 2
  else none

/-- The loop of `esl_buffer_read_packet` over the bytes in use, with `next` behind them: the length
of the packet. -/
def scanPacket (next : Char) : Text → Option Nat
  | [] => none
  | c :: t =>
    if c = '\x00' then none
    else
      match if c = '\n' then blankLine (t ++ [next]) else none with
      | some n => some (n + 1)
      | none => (scanPacket next t).map (· + 1)

def EslBuffer.readPacket (maxlen : Nat) (b : EslBuffer) : Option (Text × EslBuffer) :=
  (scanPacket (b.next heap) b.valid).map fun datalen => b.read (min datalen maxlen)

/-! ### Writing -/

theorem EslBuffer.append_or_lose (data : Text) :
    (b.append heap blocksize data).valid = b.valid ++ data ∨
      (b.append heap blocksize data).valid = b.valid ∧ ¬ heap.Grows := by
  unfold EslBuffer.append
  split
  · exact Or.inl rfl
  · dsimp only
    split
    · exact Or.inl rfl
    next refused =>
      exact Or.inr ⟨rfl, fun grows => refused (grows _)⟩

theorem EslBuffer.write_or_lose (data : Text) :
    (b.write heap blocksize data).valid = b.valid ++ data ∨
      (b.write heap blocksize data).valid = b.valid ∧ ¬ heap.Grows := by
  unfold EslBuffer.write
  split
  next empty =>
    rw [empty, append_nil]
    exact Or.inl rfl
  · split
    · exact b.compact.append_or_lose heap blocksize data
    · exact b.append_or_lose heap blocksize data

theorem EslBuffer.write_valid {heap : Heap} (grows : heap.Grows) (blocksize : Nat) (b : EslBuffer)
    (data : Text) : (b.write heap blocksize data).valid = b.valid ++ data := by
  rcases b.write_or_lose heap blocksize data with written | ⟨-, refused⟩
  · exact written
  · exact absurd grows refused

theorem EslBuffer.write_length_le (data : Text) :
    (b.write heap blocksize data).valid.length ≤ b.valid.length + data.length := by
  rcases b.write_or_lose heap blocksize data with written | ⟨lost, -⟩
  · rw [written, length_append]
  · rw [lost]
    exact Nat.le_add_right _ _

theorem EslBuffer.write_room {data : Text} (filled : data ≠ [])
    (room : data.length ≤ b.behind.length) :
    b.write heap blocksize data = ⟨b.consumed, b.valid ++ data, b.behind.drop data.length⟩ := by
  unfold EslBuffer.write
  rw [if_neg filled, if_neg (by omega), EslBuffer.append, if_pos room]

theorem EslBuffer.write_compact {data : Text} (filled : data ≠ [])
    (full : b.behind.length < data.length) (room : data.length ≤ b.compact.behind.length) :
    b.write heap blocksize data =
      ⟨[], b.valid ++ data, b.compact.behind.drop data.length⟩ := by
  unfold EslBuffer.write
  rw [if_neg filled, if_pos full, EslBuffer.append, if_pos room]
  rfl

/-! ### Scanning -/

variable {next : Char} {n : Nat} {t : Text}

theorem scanPacket_pos (found : scanPacket next t = some n) :
    0 < n ∧ 0 < t.length := by
  cases t with
  | nil => cases found
  | cons c t =>
    refine ⟨?_, Nat.succ_pos _⟩
    rw [scanPacket] at found
    split at found
    · cases found
    · split at found
      · cases found
        exact Nat.succ_pos _
      · obtain ⟨m, -, rfl⟩ := Option.map_eq_some_iff.mp found
        exact Nat.succ_pos _

def PartialEnd (t : Text) : Prop := ['\n'] <:+ t ∨ ['\n', '\r'] <:+ t

theorem PartialEnd.cons (ends : PartialEnd t) (c : Char) : PartialEnd (c :: t) :=
  ends.imp (fun line => line.trans (suffix_cons c t)) fun line =>
    line.trans (suffix_cons c t)

theorem blankLine_other (x y : Char) (t u : Text) :
    blankLine (x :: y :: t) = blankLine (x :: y :: u) := by
  simp [blankLine]

theorem blankLine_nul (t : Text) : blankLine (t ++ ['\x00']) = blankLine t := by
  match t with
  | [] => rfl
  | [x] => simp [blankLine]
  | x :: y :: t => exact blankLine_other x y _ _

theorem blankLine_clean (clean : next = '\n' → ¬ PartialEnd ('\n' :: t)) :
    blankLine (t ++ [next]) = blankLine t := by
  match t with
  | [] =>
    have other : next ≠ '\n' := fun same => clean same (Or.inl (suffix_refl _))
    simp [blankLine, other]
  | [x] =>
    by_cases cr : x = '\r'
    · subst cr
      have other : next ≠ '\n' := fun same => clean same (Or.inr (suffix_refl _))
      simp [blankLine, other]
    · simp [blankLine, cr]
  | x :: y :: t => exact blankLine_other x y _ _

theorem scanPacket_cons (c : Char) (t : Text) :
    scanPacket '\x00' (c :: t) = if c = '\x00' then none else
      match if c = '\n' then blankLine t else none with
      | some n => some (n + 1)
      | none => (scanPacket '\x00' t).map (· + 1) := by
  rw [scanPacket, blankLine_nul]

theorem scanPacket_of_not_partialEnd (clean : next = '\n' → ¬ PartialEnd t) :
    scanPacket next t = scanPacket '\x00' t := by
  induction t with
  | nil => rfl
  | cons c t ih =>
    have rest := ih fun same ends => clean same (ends.cons c)
    rw [scanPacket_cons, scanPacket, rest]
    by_cases lf : c = '\n'
    · subst lf
      rw [blankLine_clean clean]
    · simp only [if_neg lf]

theorem blankLine_le (found : blankLine t = some n) : n ≤ t.length := by
  match t with
  | [] => simp [blankLine] at found
  | [x] =>
    simp only [blankLine] at found
    split at found
    · cases found
      exact le_rfl
    · simp at found
  | x :: y :: t =>
    simp only [blankLine] at found
    split at found
    · cases found
      simp
    · split at found
      · cases found
        simp
      · cases found

theorem scanPacket_le (found : scanPacket '\x00' t = some n) :
    n ≤ t.length := by
  induction t generalizing n with
  | nil => cases found
  | cons c t ih =>
    rw [scanPacket_cons] at found
    split at found
    · cases found
    · split at found
      next k blank =>
        cases found
        split at blank
        · exact Nat.succ_le_succ (blankLine_le blank)
        · cases blank
      next =>
        obtain ⟨m, later, rfl⟩ := Option.map_eq_some_iff.mp found
        exact Nat.succ_le_succ (ih later)

theorem blankLine_append (found : blankLine t = some n) (u : Text) :
    blankLine (t ++ u) = some n := by
  match t with
  | [] => simp [blankLine] at found
  | [x] =>
    simp only [blankLine] at found
    split at found
    next lf =>
      rw [← found, blankLine, if_pos]
      simpa using lf
    · simp at found
  | x :: y :: t => exact (blankLine_other x y _ _).trans found

theorem blankLine_whole (later : scanPacket '\x00' t = some n) (u : Text) :
    blankLine (t ++ u) = blankLine t := by
  match t with
  | [] => cases later
  | [x] =>
    rw [scanPacket_cons] at later
    split at later
    · cases later
    · split at later
      next blank =>
        split at blank <;> cases blank
      next => cases later
  | x :: y :: t => exact blankLine_other x y _ _

theorem scanPacket_append (found : scanPacket '\x00' t = some n) (next : Char) (u : Text) :
    scanPacket next (t ++ u) = some n := by
  induction t generalizing n with
  | nil => cases found
  | cons c t ih =>
    rw [scanPacket_cons] at found
    rw [cons_append, scanPacket, append_assoc]
    by_cases nul : c = '\x00'
    · rw [if_pos nul] at found
      cases found
    rw [if_neg nul] at found ⊢
    cases blank : (if c = '\n' then blankLine t else none) with
    | some k =>
      rw [blank] at found
      have extended : (if c = '\n' then blankLine (t ++ (u ++ [next])) else none) = some k := by
        split at blank
        next lf => rw [if_pos lf, blankLine_append blank]
        next => cases blank
      rw [extended]
      exact found
    | none =>
      rw [blank] at found
      obtain ⟨m, later, rfl⟩ := Option.map_eq_some_iff.mp found
      have extended : (if c = '\n' then blankLine (t ++ (u ++ [next])) else none) = none := by
        rw [blankLine_whole later (u ++ [next])]
        exact blank
      rw [extended, ih later]
      rfl

/-- **The byte behind does not matter** unless it is a line feed, the text ends within an end of a
packet, and no end lies within it. -/
theorem scanPacket_clean (clean : next = '\n' → PartialEnd t → (scanPacket '\x00' t).isSome) :
    scanPacket next t = scanPacket '\x00' t := by
  cases within : scanPacket '\x00' t with
  | some n =>
    rw [← append_nil t]
    exact scanPacket_append within next []
  | none =>
    rw [within] at clean
    rw [← within]
    exact scanPacket_of_not_partialEnd fun same ends => Bool.false_ne_true (clean same ends)

end FreeSwitch
