/-
**Reading from a media bug.**

`switch_core_media_bug_read` takes a frame from each of the two streams of a bug and mixes them into the
frame of the caller, or puts them side by side. The size of the frames that it takes is fixed by the
first call (`record_frame_size`); what the caller has room for is compared with the size of the codec of
this call, and for stereo twice as much is written.

* `mediaBugRead_cases`: how many bytes are written to the frame;
* `frame_fits_iff`: when they are those that `datalen` names.
-/

import FreeSwitch.Conference.Mix
import FreeSwitch.Rtp.Session

namespace FreeSwitch

open List

/-! ### The code -/

def overlay (mem : Nat → BitVec 8) (bytes : List (BitVec 8)) : Nat → BitVec 8 := fun i =>
  bytes[i]?.getD (mem i)

/-- The `int16_t` number `x` of a memory. -/
def memSample (big : Bool) (mem : Nat → BitVec 8) (x : Nat) : Int :=
  Int.bmod (Bytes.value16 big mem (2 * x)) (2 ^ 16)

/-- `switch_frame_t`, with the memory at `data`; the call has written its first `wrote` bytes. -/
structure BugFrame where
  data : Nat → BitVec 8
  buflen : Nat
  datalen : Nat
  samples : Nat
  wrote : Nat

def BugFrame.put (frame : BugFrame) (bytes : List (BitVec 8)) : BugFrame :=
  { frame with data := overlay frame.data bytes, wrote := max frame.wrote bytes.length }

/-- `switch_media_bug_t` for reading: `SMBF_READ_STREAM`, `SMBF_WRITE_STREAM`, `SMBF_STEREO` and
`SMBF_STEREO_SWAP`, the two buffers, and what was set up for recording. -/
structure ReadBug where
  readStream : Bool
  writeStream : Bool
  stereo : Bool
  stereoSwap : Bool
  rawRead : Option (List (BitVec 8))
  rawWrite : Option (List (BitVec 8))
  data : Nat → BitVec 8
  tmp : Nat → BitVec 8
  recordFrameSize : Nat
  preBufferCount : Nat
  preBufferMax : Nat

def recommendedBufferSize : Nat := 4096

/-- `switch_buffer_inuse`. A stream has its buffer. -/
def inuse (buffer : Option (List (BitVec 8))) : Nat := buffer.elim 0 List.length

/-- `do_read` and `do_write` at first. -/
def ReadBug.reads (bug : ReadBug) : Nat := if bug.readStream then inuse bug.rawRead else 0

def ReadBug.writes (bug : ReadBug) : Nat := if bug.writeStream then inuse bug.rawWrite else 0

variable (bug : ReadBug)

/-- `record_frame_size`, which the first call sets. -/
def ReadBug.frameSize (bytes : Nat) : Nat :=
  if bug.recordFrameSize = 0 then bytes else bug.recordFrameSize

/-- They are cut to the size of a frame, and to one that fits `bug->data`. -/
def cutAmount (size n : Nat) : Nat :=
  let n := if size ≠ 0 ∧ n > size then size else n
  if n > recommendedBufferSize then 1280 else n

/-- `switch_core_media_bug_flush`. -/
def ReadBug.flush (bug : ReadBug) : ReadBug :=
  { bug with
    rawRead := bug.rawRead.map fun _ => []
    rawWrite := bug.rawWrite.map fun _ => []
    recordFrameSize := 0
    preBufferCount := 0 }

/-- The read stream, or silence, goes into the frame; `false` is a framing error. -/
def ReadBug.fetchRead (bytes doRead : Nat) (frame : BugFrame) : Bool × ReadBug × BugFrame :=
  if doRead ≠ 0 then
    let got := (bug.rawRead.getD []).take doRead
    let frame := { frame.put got with datalen := got.length }
    let bug := { bug with rawRead := bug.rawRead.map (·.drop doRead) }
    if got.length ≠ doRead then (false, bug.flush, frame) else (true, bug, frame)
  else (true, bug, { frame.put (.replicate bytes 255) with datalen := bytes })

/-- The write stream, or silence, is put into `bug->data`, with its length. -/
def ReadBug.fetchWrite (bytes doWrite : Nat) : Bool × ReadBug × Nat :=
  if doWrite ≠ 0 then
    let got := (bug.rawWrite.getD []).take doWrite
    let bug := { bug with
      rawWrite := bug.rawWrite.map (·.drop doWrite)
      data := overlay bug.data got }
    if got.length ≠ doWrite then (false, bug.flush, got.length) else (true, bug, got.length)
  else (true, { bug with data := overlay bug.data (.replicate bytes 255) }, bytes)

def mixSample (r w : Int) : Int :=
  let z := w + r
  normalizeTo16bit (if z > 32767 ∨ z < -32768 then z + r.tdiv 2 + w.tdiv 2 else z)

def ReadBug.mix (big : Bool) (bug : ReadBug) (bytes datalen : Nat) (frame : BugFrame) :
    ReadBug × BugFrame :=
  let r x := if x < frame.datalen / 2 then memSample big frame.data x else 0
  let w x := if x < datalen / 2 then memSample big bug.data x else 0
  if bug.stereo then
    let left := if bug.stereoSwap then w else r
    let right := if bug.stereoSwap then r else w
    let both := frameBytes big (2 * (bytes / 2)) fun x =>
      if x % 2 = 0 then left (x / 2) else right (x / 2)
    let bug := { bug with tmp := overlay bug.tmp both }
    (bug, frame.put ((List.range (bytes * 2)).map bug.tmp))
  else (bug, frame.put (frameBytes big (bytes / 2) fun x => mixSample (r x) (w x)))

/-- The second half of `switch_core_media_bug_read`; `pause` is `SWITCH_STATUS_BREAK`. -/
def readFrames (big : Bool) (bug : ReadBug) (bytes doRead doWrite : Nat) (frame : BugFrame) :
    ReadStatus × ReadBug × BugFrame :=
  match bug.fetchRead bytes doRead frame with
  | (false, bug, frame) => (.failure, bug, frame)
  | (true, bug, frame) =>
    match bug.fetchWrite bytes doWrite with
    | (false, bug, _) => (.failure, bug, frame)
    | (true, bug, datalen) =>
      let (bug, frame) := bug.mix big bytes datalen frame
      (if doRead = 0 ∨ doWrite = 0 then .pause else .success, bug,
        { frame with datalen := bytes, samples := bytes / 2 })

/-- **`switch_core_media_bug_read`**, where frames of the codec have `bytes` bytes. -/
def mediaBugRead (big : Bool) (bug : ReadBug) (bytes : Nat) (frame : BugFrame) :
    ReadStatus × ReadBug × BugFrame :=
  let frame := { frame with wrote := 0 }
  if frame.buflen < bytes then (.failure, bug, frame)
  else if bug.rawRead.isNone && (bug.rawWrite.isNone || !bug.writeStream) then (.failure, bug, frame)
  else
    let frame := { frame with datalen := 0 }
    let doRead := bug.reads
    let doWrite := bug.writes
    if bug.recordFrameSize ≠ 0 ∧ bug.preBufferMax ≠ 0 ∧ (doRead ≠ 0 ∨ doWrite ≠ 0) ∧
        bug.preBufferCount < bug.preBufferMax then
      (.failure, { bug with preBufferCount := bug.preBufferCount + 1 }, frame)
    else
      let size := bug.frameSize bytes
      let bug := { bug with recordFrameSize := size }
      if size ≠ 0 ∧ (doRead ≠ 0 ∧ doRead < size ∨ doWrite ≠ 0 ∧ doWrite < size) then
        (.failure, bug, frame)
      else if doRead = 0 ∧ doWrite = 0 then (.failure, bug, frame)
      else readFrames big bug bytes (cutAmount size doRead) (cutAmount size doWrite) frame

/-! ### How much is written -/

open ReadBug

def ReadBug.takes (bytes : Nat) : Nat :=
  if bug.reads = 0 then bytes else cutAmount (bug.frameSize bytes) bug.reads

def ReadBug.writesTo (bytes : Nat) : Nat :=
  max (bug.takes bytes) (if bug.stereo then bytes * 2 else bytes / 2 * 2)

/-- **The frame is right**: what was written fits, and is what a good status reports. -/
def FrameFits (result : ReadStatus × ReadBug × BugFrame) : Prop :=
  result.2.2.wrote ≤ result.2.2.buflen ∧
    (result.1 ≠ .failure → result.2.2.datalen = result.2.2.wrote)

/-- The call takes frames: there is room for one of the codec, a stream with a whole frame buffered
and none with less, and none to be let go by first. -/
def ReadBug.Goes (bytes buflen : Nat) : Prop :=
  bytes ≤ buflen ∧ (bug.rawRead.isSome ∨ bug.rawWrite.isSome ∧ bug.writeStream) ∧
    (bug.reads ≠ 0 ∨ bug.writes ≠ 0) ∧
    (bug.recordFrameSize = 0 ∨ bug.preBufferMax ≤ bug.preBufferCount) ∧
    (bug.reads ≠ 0 → bug.frameSize bytes ≤ bug.reads) ∧
    (bug.writes ≠ 0 → bug.frameSize bytes ≤ bug.writes)

def ReadBug.Fits (bytes : Nat) : Prop :=
  (bug.stereo → bytes = 0) ∧ bug.takes bytes ≤ bytes ∧ (bytes % 2 = 0 ∨ bug.takes bytes = bytes)

section Written

variable {big : Bool} {bug : ReadBug} {bytes : Nat} {frame : BugFrame}

theorem cutAmount_le (size n : Nat) : cutAmount size n ≤ n := by
  unfold cutAmount recommendedBufferSize
  dsimp only
  split <;> split <;> omega

theorem cutAmount_eq_zero {size n : Nat} : cutAmount size n = 0 ↔ n = 0 := by
  unfold cutAmount recommendedBufferSize
  dsimp only
  split <;> split <;> omega

theorem length_take_inuse {buffer : Option (List (BitVec 8))} {n : Nat} (enough : n ≤ inuse buffer) :
    ((buffer.getD []).take n).length = n := by
  cases buffer with
  | none => exact (Nat.le_zero.mp enough).symm ▸ rfl
  | some content => exact length_take_of_le enough

theorem reads_le : bug.reads ≤ inuse bug.rawRead := by
  unfold reads
  split <;> omega

theorem writes_le : bug.writes ≤ inuse bug.rawWrite := by
  unfold ReadBug.writes
  split <;> omega

theorem fetchRead_spec {doRead : Nat} (enough : doRead ≤ inuse bug.rawRead) :
    ∃ after frame', bug.fetchRead bytes doRead frame = (true, after, frame') ∧
      after.stereo = bug.stereo ∧ after.rawWrite = bug.rawWrite ∧ frame'.buflen = frame.buflen ∧
      frame'.wrote = max frame.wrote (if doRead = 0 then bytes else doRead) := by
  unfold fetchRead
  by_cases none : doRead = 0
  · rw [if_neg (not_not.mpr none), if_pos none]
    refine ⟨_, _, rfl, rfl, rfl, rfl, ?_⟩
    exact congrArg (max frame.wrote) length_replicate
  · have full := length_take_inuse enough
    rw [if_pos none, if_neg (not_not.mpr full), if_neg none]
    refine ⟨_, _, rfl, rfl, rfl, rfl, ?_⟩
    exact congrArg (max frame.wrote) full

theorem fetchWrite_spec {doWrite : Nat} (enough : doWrite ≤ inuse bug.rawWrite) :
    ∃ after datalen, bug.fetchWrite bytes doWrite = (true, after, datalen) ∧
      after.stereo = bug.stereo := by
  unfold fetchWrite
  by_cases none : doWrite = 0
  · rw [if_neg (not_not.mpr none)]
    exact ⟨_, _, rfl, rfl⟩
  · rw [if_pos none, if_neg (not_not.mpr (length_take_inuse enough))]
    exact ⟨_, _, rfl, rfl⟩

theorem mix_spec {datalen : Nat} :
    (bug.mix big bytes datalen frame).2.buflen = frame.buflen ∧
      (bug.mix big bytes datalen frame).2.wrote =
        max frame.wrote (if bug.stereo then bytes * 2 else bytes / 2 * 2) := by
  unfold mix
  by_cases stereo : bug.stereo
  · simp only [stereo, if_true, BugFrame.put, length_map, length_range, and_self]
  · simp only [stereo, if_false, Bool.false_eq_true, BugFrame.put, frameBytes_length, and_self]

theorem readFrames_spec {doRead doWrite : Nat} (read : doRead ≤ inuse bug.rawRead)
    (write : doWrite ≤ inuse bug.rawWrite) :
    (readFrames big bug bytes doRead doWrite frame).1 ≠ .failure ∧
      (readFrames big bug bytes doRead doWrite frame).2.2.buflen = frame.buflen ∧
      (readFrames big bug bytes doRead doWrite frame).2.2.datalen = bytes ∧
      (readFrames big bug bytes doRead doWrite frame).2.2.wrote =
        max (max frame.wrote (if doRead = 0 then bytes else doRead))
          (if bug.stereo then bytes * 2 else bytes / 2 * 2) := by
  obtain ⟨first, frame', fetched, stereo, kept, room, wrote⟩ :=
    @fetchRead_spec bug bytes frame doRead read
  obtain ⟨second, datalen, fetched', stereo'⟩ :=
    @fetchWrite_spec first bytes doWrite (kept ▸ write)
  obtain ⟨room', wrote'⟩ := @mix_spec big second bytes frame' datalen
  simp only [readFrames, fetched, fetched']
  refine ⟨?_, room'.trans room, trivial, ?_⟩
  · split <;> decide
  · rw [wrote', wrote, stereo', stereo]

theorem noBuffer_iff :
    (bug.rawRead.isNone && (bug.rawWrite.isNone || !bug.writeStream)) = true ↔
      ¬ (bug.rawRead.isSome ∨ bug.rawWrite.isSome ∧ bug.writeStream) := by
  cases bug.rawRead <;> cases bug.rawWrite <;> cases bug.writeStream <;> simp

theorem mediaBugRead_cases :
    (¬ bug.Goes bytes frame.buflen ∧ (mediaBugRead big bug bytes frame).1 = .failure ∧
      (mediaBugRead big bug bytes frame).2.2.wrote = 0) ∨
    (bug.Goes bytes frame.buflen ∧ (mediaBugRead big bug bytes frame).1 ≠ .failure ∧
      (mediaBugRead big bug bytes frame).2.2.buflen = frame.buflen ∧
      (mediaBugRead big bug bytes frame).2.2.datalen = bytes ∧
      (mediaBugRead big bug bytes frame).2.2.wrote = bug.writesTo bytes) := by
  unfold mediaBugRead Goes
  dsimp only
  split
  case isTrue small => exact .inl ⟨fun goes => absurd goes.1 (Nat.not_le.mpr small), rfl, rfl⟩
  case isFalse large =>
  split
  case isTrue buffers =>
    exact .inl ⟨fun goes => noBuffer_iff.mp buffers goes.2.1, rfl, rfl⟩
  case isFalse buffers =>
  split
  case isTrue early =>
    refine .inl ⟨fun goes => ?_, rfl, rfl⟩
    have := goes.2.2.2.1
    omega
  case isFalse due =>
  split
  case isTrue short =>
    refine .inl ⟨fun goes => ?_, rfl, rfl⟩
    have := goes.2.2.2.2
    omega
  case isFalse whole =>
  split
  case isTrue nothing =>
    refine .inl ⟨fun goes => ?_, rfl, rfl⟩
    have := goes.2.2.1
    omega
  case isFalse something =>
  have present := not_not.mp (noBuffer_iff.not.mp buffers)
  obtain ⟨good, room, reported, wrote⟩ := @readFrames_spec big
    { bug with recordFrameSize := bug.frameSize bytes } bytes { frame with wrote := 0, datalen := 0 }
    (cutAmount (bug.frameSize bytes) bug.reads) (cutAmount (bug.frameSize bytes) bug.writes)
    ((cutAmount_le _ _).trans reads_le) ((cutAmount_le _ _).trans writes_le)
  refine .inr ⟨⟨Nat.le_of_not_lt large, present, ?_, ?_, ?_, ?_⟩, good, room, reported, wrote.trans ?_⟩
  all_goals try omega
  simp only [writesTo, takes, cutAmount_eq_zero, Nat.zero_max]

/-- **The frame is right just when the call is turned away or the bug has what fits.** -/
theorem frame_fits_iff (big : Bool) (bug : ReadBug) (bytes : Nat) (frame : BugFrame) :
    FrameFits (mediaBugRead big bug bytes frame) ↔
      (bug.Goes bytes frame.buflen → bug.Fits bytes) := by
  unfold FrameFits
  obtain ⟨away, failed, wrote⟩ | ⟨goes, good, room, reported, wrote⟩ :=
    @mediaBugRead_cases big bug bytes frame
  · rw [failed, wrote]
    simp [away]
  · have large : bytes ≤ frame.buflen := goes.1
    rw [reported, wrote, room]
    unfold writesTo Fits
    by_cases stereo : bug.stereo
    · rw [if_pos stereo]
      simp only [stereo, good, goes, ne_eq, not_false_eq_true, forall_const]
      omega
    · rw [if_neg stereo]
      simp only [stereo, good, goes, ne_eq, not_false_eq_true, forall_const, false_implies, true_and,
        Bool.false_eq_true]
      omega

end Written

/-- A bug with a stereo flag, or not, that has taken frames of `size` bytes. -/
def sampleBug (stereo : Bool) (size : Nat) : ReadBug where
  readStream := true
  writeStream := true
  stereo := stereo
  stereoSwap := false
  rawRead := some (.replicate 8 1)
  rawWrite := some (.replicate 8 2)
  data := fun _ => 0
  tmp := fun _ => 0
  recordFrameSize := size
  preBufferCount := 0
  preBufferMax := 0

def sampleFrame (buflen : Nat) : BugFrame where
  data := fun _ => 0
  buflen := buflen
  datalen := 0
  samples := 0
  wrote := 0

/-- With a codec of two bytes and room for two, stereo writes four; so does a mono bug whose first
frame had four. Both report two. -/
theorem frame_overrun :
    ((mediaBugRead false (sampleBug true 0) 2 (sampleFrame 2)).1 = .success ∧
      (mediaBugRead false (sampleBug true 0) 2 (sampleFrame 2)).2.2.wrote = 4 ∧
      (mediaBugRead false (sampleBug true 0) 2 (sampleFrame 2)).2.2.datalen = 2) ∧
    ((mediaBugRead false (sampleBug false 0) 4 (sampleFrame 4)).2.1.recordFrameSize = 4 ∧
      (mediaBugRead false (sampleBug false 4) 2 (sampleFrame 2)).1 = .success ∧
      (mediaBugRead false (sampleBug false 4) 2 (sampleFrame 2)).2.2.wrote = 4 ∧
      (mediaBugRead false (sampleBug false 4) 2 (sampleFrame 2)).2.2.datalen = 2) ∧
    ¬ FrameFits (mediaBugRead false (sampleBug true 0) 2 (sampleFrame 2)) := by
  refine ⟨by decide, by decide, ?_⟩
  rintro ⟨fits, -⟩
  exact absurd fits (by decide)

end FreeSwitch
