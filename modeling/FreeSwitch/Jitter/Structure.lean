/-
**The queues of the jitter buffer.**

The three roles are always played by three different queues, and every queue has as many frames as
its sizes say. With at least one frame in a queue, no call accesses a frame that is not there, and
no assertion fails.

* `addData_spec`, `readAFrame_spec`, `resize_sound`, `sync_spec`, `reset_spec`: each call returns and
  keeps that;
* **`structure_kept`**: so does every run in which no call makes the queues empty.
-/

import FreeSwitch.Lib.Fallible
import FreeSwitch.Lib.Run
import FreeSwitch.Jitter.Instance

namespace FreeSwitch

open Function List Stfu Unsigned

open Fallible (Ends)
open Scan (scan_spec)

/-! ### Sound queues -/

/-- A queue of `qlen` frames; more may be allocated. -/
structure StfuQueue.Sound (P : StfuFrame → Prop) (queue : StfuQueue) (qlen : Nat) : Prop where
  len : queue.arrayLen ≤ qlen
  size : queue.arraySize = qlen
  real : qlen ≤ queue.realArraySize
  allocated : queue.realArraySize = queue.array.length
  frames : ∀ frame ∈ queue.array, P frame
  plc : queue.intFrame.plc = true

theorem StfuQueue.Sound.resizeAqueue {P : StfuFrame → Prop} (zero : P .zero) {queue : StfuQueue}
    {old : Nat} (sound : queue.Sound P old) (qlen : Nat) :
    (queue.resizeAqueue qlen).Sound P qlen := by
  unfold StfuQueue.resizeAqueue
  split
  next fits =>
    refine { sound with len := ?_, size := rfl, real := fits }
    dsimp only
    split <;> omega
  next grows =>
    have real := sound.real
    have size := sound.size
    have len := sound.len
    refine ⟨?_, rfl, le_rfl, ?_, fun frame member => ?_, sound.plc⟩
    · dsimp only
      omega
    · dsimp only
      have allocated := sound.allocated
      rw [length_append, length_take, length_replicate]
      omega
    · rcases mem_append.mp member with kept | new
      · exact sound.frames frame (mem_of_mem_take kept)
      · rw [eq_of_mem_replicate new]
        exact zero

/-- Three queues in three roles, of `qlen` frames each; there are frames, or calls may fail. -/
structure Stfu.Sound (may : Prop) (P : StfuFrame → Prop) (i : Stfu) : Prop where
  inOut : i.inQueue ≠ i.outQueue
  inOld : i.inQueue ≠ i.oldQueue
  outOld : i.outQueue ≠ i.oldQueue
  queue : ∀ name, (i.queues name).Sound P i.qlen
  nonempty : may ∨ 1 ≤ i.qlen
  small : i.qlen < 2 ^ 32
  maxSmall : i.maxQlen < 2 ^ 32
  orig : may ∨ 1 ≤ i.origQlen
  samples : 1 ≤ i.samplesPerPacket

structure Stfu.SameQueues (i j : Stfu) : Prop where
  queues : j.queues = i.queues
  inQueue : j.inQueue = i.inQueue
  outQueue : j.outQueue = i.outQueue
  oldQueue : j.oldQueue = i.oldQueue
  qlen : j.qlen = i.qlen
  maxQlen : j.maxQlen = i.maxQlen
  origQlen : j.origQlen = i.origQlen
  samples : j.samplesPerPacket = i.samplesPerPacket

structure Stfu.SameTimes (i j : Stfu) : Prop where
  curTs : j.curTs = i.curTs
  lastWrTs : j.lastWrTs = i.lastWrTs
  samples : j.samplesPerPacket = i.samplesPerPacket

namespace Stfu

theorem SameTimes.refl (i : Stfu) : SameTimes i i := ⟨rfl, rfl, rfl⟩

theorem SameTimes.trans {i j k : Stfu} (first : SameTimes i j) (second : SameTimes j k) :
    SameTimes i k :=
  ⟨second.curTs.trans first.curTs, second.lastWrTs.trans first.lastWrTs,
    second.samples.trans first.samples⟩

variable {may : Prop} {P Q : StfuFrame → Prop} {i : Stfu}

theorem resize_times (i : Stfu) (qlen : Nat) : SameTimes i (i.resize qlen).1 := by
  unfold resize
  split
  · exact .refl i
  · split
    · split
      · exact ⟨rfl, rfl, rfl⟩
      · exact .refl i
    · exact ⟨rfl, rfl, rfl⟩

theorem drift_same (i : Stfu) (ts timerTs : Nat) :
    SameQueues i (i.drift ts timerTs).1 ∧ SameTimes i (i.drift ts timerTs).1 ∧
      (i.drift ts timerTs).1.periodMissingCount = i.periodMissingCount := by
  unfold drift
  dsimp only
  split
  · exact ⟨⟨rfl, rfl, rfl, rfl, rfl, rfl, rfl, rfl⟩, .refl i, rfl⟩
  · split
    · exact ⟨⟨rfl, rfl, rfl, rfl, rfl, rfl, rfl, rfl⟩, ⟨rfl, rfl, rfl⟩, rfl⟩
    · split <;> exact ⟨⟨rfl, rfl, rfl, rfl, rfl, rfl, rfl, rfl⟩, ⟨rfl, rfl, rfl⟩, rfl⟩

theorem countLate_times (i : Stfu) : SameTimes i i.countLate := by
  unfold countLate
  dsimp only
  split
  · exact ⟨rfl, rfl, rfl⟩
  · exact .refl i

theorem swapIfFull_times (i : Stfu) (always : Bool) : SameTimes i (i.swapIfFull always) := by
  unfold swapIfFull
  split
  · exact ⟨rfl, rfl, rfl⟩
  · exact .refl i

theorem sync_all (i : Stfu) : i.sync i.qlen = .ok { i with syncOut := i.qlen, syncIn := i.qlen } :=
  if_neg (lt_irrefl _)

theorem init_sound (zero : P .zero) {qlen maxQlen samplesPerPacket samplesPerSecond maxDriftMs : UInt32}
    {debug : Bool} (nonempty : may ∨ 1 ≤ qlen)
    (created : init qlen maxQlen samplesPerPacket samplesPerSecond maxDriftMs debug = .ok i) :
    i.Sound may P := by
  have positive : may ∨ 1 ≤ qlen.toNat := nonempty
  unfold init at created
  split at created
  · cases created
  next samples =>
    obtain rfl := Except.ok.inj created
    refine ⟨nofun, nofun, nofun, fun _ => ?_, positive, qlen.toNat_lt, maxQlen.toNat_lt, positive, ?_⟩
    · refine ⟨Nat.zero_le _, rfl, le_rfl, (length_replicate).symm, fun frame member => ?_, rfl⟩
      rw [eq_of_mem_replicate member]
      exact zero
    · refine Nat.one_le_iff_ne_zero.mpr fun none => samples ?_
      exact UInt32.toNat_inj.mp none

def OnlyQueues (i j : Stfu) : Prop := ∃ queues, j = { i with queues := queues }

theorem OnlyQueues.refl (i : Stfu) : OnlyQueues i i := ⟨i.queues, rfl⟩

theorem OnlyQueues.trans {i j k : Stfu} (first : OnlyQueues i j) (second : OnlyQueues j k) :
    OnlyQueues i k := by
  obtain ⟨_, rfl⟩ := first
  obtain ⟨queues, rfl⟩ := second
  exact ⟨queues, rfl⟩

section Sound

variable (sound : i.Sound may P)
include sound

theorem Sound.congr {j : Stfu}
    (same : SameQueues i j := by exact ⟨rfl, rfl, rfl, rfl, rfl, rfl, rfl, rfl⟩) : j.Sound may P := by
  obtain ⟨queues, inQueue, outQueue, oldQueue, qlen, maxQlen, origQlen, samples⟩ := same
  constructor
  · rw [inQueue, outQueue]; exact sound.inOut
  · rw [inQueue, oldQueue]; exact sound.inOld
  · rw [outQueue, oldQueue]; exact sound.outOld
  · rw [queues, qlen]; exact sound.queue
  · rw [qlen]; exact sound.nonempty
  · rw [qlen]; exact sound.small
  · rw [maxQlen]; exact sound.maxSmall
  · rw [origQlen]; exact sound.orig
  · rw [samples]; exact sound.samples

theorem Sound.mono (weaker : ∀ frame, P frame → Q frame) : i.Sound may Q :=
  { sound with
    queue := fun name => { sound.queue name with
      frames := fun frame member => weaker frame ((sound.queue name).frames frame member) } }

theorem Sound.setQueue (name : QueueName) {queue : StfuQueue}
    (fine : queue.Sound P i.qlen) : (i.setQueue name queue).Sound may P := by
  refine { sound with queue := fun other => ?_ }
  change (update i.queues name queue other).Sound P i.qlen
  by_cases same : other = name
  · subst same
    rw [update_self]
    exact fine
  · rw [update_of_ne same]
    exact sound.queue other

theorem Sound.setLen (name : QueueName) {len : Nat} (short : len ≤ i.qlen) :
    (i.setLen name len).Sound may P :=
  sound.setQueue name { sound.queue name with len := short }

theorem Sound.setFrame (name : QueueName) (index : Nat) {frame : StfuFrame}
    (fine : P frame) : (i.setFrame name index frame).Sound may P := by
  have queue := sound.queue name
  refine sound.setQueue name { queue with allocated := ?_, frames := fun other member => ?_ }
  · rw [length_set]
    exact queue.allocated
  · rcases mem_or_eq_of_mem_set member with old | rfl
    · exact queue.frames other old
    · exact fine

/-! ### Setting up, resizing and resetting -/

theorem resizeQueues_sound (zero : P .zero) {qlen : Nat} (nonempty : may ∨ 1 ≤ qlen)
    (small : qlen < 2 ^ 32) : (i.resizeQueues qlen).Sound may P :=
  { sound with
    queue := fun name => (sound.queue name).resizeAqueue zero qlen
    nonempty := nonempty
    small := small }

theorem resize_sound (zero : P .zero) {qlen : Nat}
    (nonempty : i.qlen = i.maxQlen ∨ may ∨ 1 ≤ qlen) (small : qlen < 2 ^ 32) :
    (i.resize qlen).1.Sound may P := by
  unfold resize
  split
  · exact sound
  next effective =>
    split
    next limit =>
      split
      · exact resizeQueues_sound sound zero (.inr (Nat.one_le_iff_ne_zero.mpr limit.1))
          sound.maxSmall
      · exact sound
    · exact resizeQueues_sound sound zero (nonempty.resolve_left effective) small

theorem resetCounters_sound : i.resetCounters.Sound may P :=
  sound.congr

theorem reset_spec :
    Ends may i.reset fun j => j.Sound may P ∧ j.syncIn = 1 := by
  have emptied := (sound.setLen .a (Nat.zero_le _)).setLen .b (Nat.zero_le _)
  unfold reset
  split
  next none => exact sound.nonempty.resolve_right (by omega)
  · refine ⟨?_, rfl⟩
    exact { emptied with inOut := nofun, inOld := nofun, outOld := nofun }

theorem sync_spec (packets : Nat) :
    Ends may (i.sync packets) (Sound may P) := by
  unfold sync
  split
  · exact (reset_spec sound).mono fun _ => And.left
  · exact sound.congr

theorem swap_sound : i.swap.Sound may P := by
  have emptied := sound.setLen i.oldQueue (Nat.zero_le _)
  exact ⟨sound.inOld.symm, sound.outOld.symm, sound.inOut, emptied.queue, emptied.nonempty,
    emptied.small, emptied.maxSmall, emptied.orig, emptied.samples⟩

/-! ### Adding a packet -/

theorem learn_eq (ts : Nat) : i.learn ts = (i, true) := by
  have samples := sound.samples
  unfold learn
  rw [if_neg (by omega)]

theorem countLate_sound : i.countLate.Sound may P := by
  have queue := sound.queue i.inQueue
  have small := sound.small
  unfold countLate
  dsimp only
  split
  next room =>
    rw [queue.size] at room
    refine sound.setLen _ ?_
    rw [add_of_lt (by omega)]
    omega
  · exact sound

def Grows (i : Stfu) : Prop :=
  i.qlen * 2 % 2 ^ 32 < i.periodMissingCount → i.qlen = i.maxQlen ∨ i.qlen + 1 < 2 ^ 32

theorem shrink_size (larger : i.origQlen < i.qlen) :
    (may ∨ 1 ≤ sub 32 i.qlen 1) ∧ sub 32 i.qlen 1 < 2 ^ 32 := by
  refine ⟨sound.orig.imp_right fun orig => ?_, sub_lt ..⟩
  rw [sub_of_le (by omega) sound.small]
  omega

theorem adaptToLosses_spec (zero : P .zero) (grows : may ∨ i.Grows) :
    ∃ j, i.adaptToLosses = .ok j ∧ j.Sound may P ∧ SameTimes i j := by
  unfold adaptToLosses
  split
  next losses =>
    refine ⟨_, rfl, resetCounters_sound (resize_sound sound zero ?_ (add_lt ..)),
      (resize_times i _).trans ⟨rfl, rfl, rfl⟩⟩
    rcases grows with failing | grows
    · exact .inr (.inl failing)
    · refine (grows losses).imp_right fun fits => .inr ?_
      rw [add_of_lt fits]
      omega
  · split
    next fewer =>
      obtain ⟨nonempty, small⟩ := shrink_size sound fewer.1
      rw [sync_all]
      exact ⟨_, rfl, (resetCounters_sound (resize_sound sound zero (.inr nonempty) small)).congr,
        (resize_times i _).trans ⟨rfl, rfl, rfl⟩⟩
    · exact ⟨i, rfl, sound, .refl i⟩

theorem adaptToPeriod_spec (zero : P .zero) (ts : Nat) :
    ∃ j, i.adaptToPeriod ts = .ok j ∧ j.Sound may P ∧ SameTimes i j := by
  have samples := sound.samples
  unfold adaptToPeriod
  rw [if_neg (by omega)]
  split
  · split
    next fewer =>
      obtain ⟨nonempty, small⟩ := shrink_size sound fewer.2
      dsimp only
      rw [sync_all]
      exact ⟨_, rfl, (resize_sound sound zero (.inr nonempty) small).congr,
        (resize_times i _).trans ⟨rfl, rfl, rfl⟩⟩
    · exact ⟨_, rfl, resetCounters_sound sound, ⟨rfl, rfl, rfl⟩⟩
  · exact ⟨i, rfl, sound, .refl i⟩

theorem swapIfFull_sound (always : Bool) : (i.swapIfFull always).Sound may P := by
  unfold swapIfFull
  split
  · exact swap_sound sound
  · exact sound

theorem swapIfFull_room (always : Bool) :
    may ∨ ((i.swapIfFull always).queues (i.swapIfFull always).inQueue).arrayLen < i.qlen := by
  refine sound.nonempty.imp_right fun nonempty => ?_
  unfold swapIfFull
  split
  · have emptied : (i.swap.queues i.swap.inQueue).arrayLen = 0 := by
      change (update i.queues i.oldQueue _ i.oldQueue).arrayLen = 0
      rw [update_self]
    omega
  next room =>
    have queue := sound.queue i.inQueue
    rw [queue.size] at room
    have len := queue.len
    omega

/-- **What adding a packet comes to**: it is stored, or nothing is. -/
structure Added (may : Prop) (P Q : StfuFrame → Prop) (i j : Stfu) (status : StfuStatus) : Prop where
  stored : status = .itWorked → j.Sound may Q
  refused : status ≠ .itWorked → j.Sound may P
  times : SameTimes i j

section Add

variable (packet : StfuPacket) (weaker : ∀ frame, P frame → Q frame)
  (fills : ∀ frame, P frame → Q (fill frame packet))
include weaker fills

theorem place_spec :
    Ends may (i.place packet) fun out => Added may P Q i out.1 out.2 := by
  have swapped := swapIfFull_sound sound packet.last
  have times := swapIfFull_times i packet.last
  have room := swapIfFull_room sound packet.last
  have size : (i.swapIfFull packet.last).qlen = i.qlen := by
    unfold swapIfFull
    split <;> rfl
  unfold place
  generalize i.swapIfFull packet.last = j at *
  dsimp only
  split
  · exact ⟨nofun, fun _ => swapped, times⟩
  · have small := swapped.small
    have queue := swapped.queue j.inQueue
    have same : (j.setLen j.inQueue
        (add 32 (j.queues j.inQueue).arrayLen 1)).queues j.inQueue =
        { j.queues j.inQueue with
          arrayLen := add 32 (j.queues j.inQueue).arrayLen 1 } := update_self ..
    rw [same]
    split
    next full =>
      rw [queue.size] at full
      exact room.resolve_right (by omega)
    next free =>
      rw [queue.size] at free
      have longer : (j.setLen j.inQueue
          (add 32 (j.queues j.inQueue).arrayLen 1)).Sound may P := by
        refine swapped.setLen j.inQueue ?_
        rw [add_of_lt (by omega)]
        omega
      have there : (j.queues j.inQueue).arrayLen < (j.queues j.inQueue).array.length := by
        have real := queue.real
        rw [queue.allocated] at real
        omega
      rw [getElem?_eq_getElem there]
      refine ⟨fun _ => ?_, fun other => absurd rfl other, ?_⟩
      · have again := (swapIfFull_sound longer false).mono weaker
        refine (again.setFrame j.inQueue (j.queues j.inQueue).arrayLen (fills _ ?_)).congr
        exact queue.frames _ (getElem_mem there)
      · have last := swapIfFull_times
          (j.setLen j.inQueue (add 32 (j.queues j.inQueue).arrayLen 1)) false
        exact times.trans { last with }

theorem accept_spec (zero : P .zero) (grows : may ∨ i.Grows) (good : Bool) :
    Ends may (i.accept packet good) fun out => Added may P Q i out.1 out.2 := by
  have counted : (i.count good).Sound may P :=
    sound.congr
  obtain ⟨j, losses, soundJ, timesJ⟩ := adaptToLosses_spec counted zero grows
  obtain ⟨k, period, soundK, timesK⟩ := adaptToPeriod_spec soundJ zero packet.ts.toNat
  have first : SameTimes i j := { timesJ with }
  unfold accept
  rw [losses]
  change Ends may (j.adaptToPeriod packet.ts.toNat >>= fun i => i.place packet) _
  rw [period]
  refine (place_spec soundK packet weaker fills).mono fun out added => ?_
  exact { added with times := (first.trans timesK).trans added.times }

theorem addData_spec (zero : P .zero) (grows : may ∨ i.Grows) :
    Ends may (i.addData packet) fun out => Added may P Q i out.1 out.2 := by
  obtain ⟨queues, times, missing⟩ := i.drift_same packet.ts.toNat packet.timerTs.toNat
  unfold addData
  dsimp only
  rw [learn_eq sound]
  dsimp only
  generalize i.drift packet.ts.toNat packet.timerTs.toNat = out at *
  obtain ⟨j, goes⟩ := out
  have soundJ := sound.congr queues
  have growsJ : may ∨ j.Grows := by
    unfold Grows at grows ⊢
    rw [queues.qlen, queues.maxQlen, missing]
    exact grows
  cases goes with
  | false => exact ⟨nofun, fun _ => soundJ, times⟩
  | true =>
    dsimp only
    split
    · have cleared : Sound may P { j with syncIn := 0 } :=
        soundJ.congr
      refine (accept_spec cleared packet weaker fills zero growsJ true).mono fun out added => ?_
      exact { added with times := times.trans ⟨added.times.curTs, added.times.lastWrTs,
        added.times.samples⟩ }
    · split
      · refine (accept_spec soundJ packet weaker fills zero growsJ _).mono fun out added => ?_
        exact { added with times := times.trans added.times }
      · exact ⟨nofun, fun _ => countLate_sound soundJ, times.trans (countLate_times j)⟩

end Add

/-! ### Reading a frame -/

theorem logFrames_spec (name : QueueName) : i.logFrames name = .ok () := by
  have queue := sound.queue name
  have cells : 0 + (i.queues name).arraySize ≤ (i.queues name).array.length := by
    rw [queue.size, ← queue.allocated, Nat.zero_add]
    exact queue.real
  obtain ⟨found, runs, -⟩ := scan_spec Fault.outOfBounds (fun _ : StfuFrame => false) cells
  unfold logFrames
  rw [runs]
  rfl

theorem logMissing_spec : i.logMissing = .ok () := by
  unfold logMissing
  split
  · rw [logFrames_spec sound, logFrames_spec sound]
    rfl
  · rfl

theorem substitute_sound : i.substitute.Sound may P := by
  have queue := sound.queue i.outQueue
  have concealed : { i.queues i.outQueue with intFrame := i.concealment }.Sound P i.qlen :=
    { queue with plc := queue.plc }
  exact (sound.setQueue i.outQueue concealed).congr

theorem miss_spec :
    Ends may i.miss fun out => out.1.Sound may P ∧ (out.2 = none → out.1.syncIn = 1) ∧
      ∀ frame ∈ out.2, frame.plc = true ∧ frame.ts = i.curTs ∧ out.1.curTs = i.curTs ∧
        out.1.lastWrTs = i.curTs := by
  unfold miss
  rw [logMissing_spec sound]
  dsimp only [bind, Except.bind]
  split
  · exact (reset_spec sound).bind fun j after => ⟨after.1, fun _ => after.2, nofun⟩
  · split
    · refine (reset_spec (substitute_sound sound)).bind fun j after => ?_
      exact ⟨after.1, fun _ => after.2, nofun⟩
    · refine ⟨substitute_sound sound, nofun, ?_⟩
      rintro _ ⟨⟩
      exact ⟨(sound.queue i.outQueue).plc, rfl, rfl, rfl⟩

/-- **Where the next read looks**: with a logger the call may end; else the place moves on, by the
samples of a packet where frames were read. -/
theorem advance_spec :
    i.advance = .ok none ∨ ∃ ts seq, i.advance = .ok (some { i with curTs := ts, curSeq := seq }) ∧
      (i.curTs ≠ 0 → ts = add 32 i.curTs i.samplesPerPacket) := by
  unfold advance
  split
  next start =>
    have queue := sound.queue i.outQueue
    have cells : 0 + (i.queues i.outQueue).arrayLen ≤ (i.queues i.outQueue).array.length := by
      have := queue.real
      have := queue.len
      rw [← queue.allocated]
      omega
    obtain ⟨found, runs, -⟩ := scan_spec Fault.outOfBounds
      (fun frame : StfuFrame => !frame.wasRead || i.debug) cells
    dsimp only
    rw [runs]
    cases found with
    | none => exact .inr ⟨i.curTs, i.curSeq, rfl, fun later => absurd start.1 later⟩
    | some hit =>
      obtain ⟨index, frame⟩ := hit
      dsimp only [bind, Except.bind]
      split
      · exact .inl rfl
      · exact .inr ⟨_, _, rfl, fun later => absurd start.1 later⟩
  · exact .inr ⟨_, _, rfl, fun _ => rfl⟩

theorem follow_sound (found : Option StfuFrame) : (i.follow found).Sound may P := by
  cases found <;> exact sound.congr

theorem finish_spec {found : Option StfuFrame}
    (hits : ∀ frame ∈ found, P frame ∧ i.curTs = frame.ts) :
    Ends may (i.finish found) fun out => out.1.Sound may P ∧
      (∀ frame ∈ out.2, frame.ts = i.curTs ∧ out.1.curTs = i.curTs ∧ out.1.lastWrTs = i.curTs ∧
        i.curTs ≠ 0 ∧ (frame.plc = false → P frame)) ∧
      (i.curTs ≠ 0 → out.2 = none → out.1.syncIn = 1) := by
  unfold finish
  split
  next zero => exact ⟨sound, nofun, fun other => absurd zero other⟩
  next positive =>
    cases found with
    | some frame =>
      obtain ⟨kept, place⟩ := hits frame rfl
      refine ⟨sound.congr, ?_, nofun⟩
      rintro _ ⟨⟩
      exact ⟨place.symm, rfl, place.symm, positive, fun _ => kept⟩
    | none =>
      have counted : Sound may P { i with
          periodMissingCount := add 32 i.periodMissingCount 1 } :=
        sound.congr
      refine (miss_spec counted).mono fun out after => ?_
      obtain ⟨still, resets, concealed⟩ := after
      refine ⟨still, fun frame member => ?_, fun _ => resets⟩
      obtain ⟨plc, ts, cur, last⟩ := concealed frame member
      exact ⟨ts, cur, last, positive, fun real => absurd (plc.symm.trans real) nofun⟩

section Read

variable (marks : ∀ frame, P frame → P { frame with wasRead := true })
include marks

theorem findBy_spec (name : QueueName) (test : StfuFrame → Bool) {bound : Nat}
    (inside : bound ≤ (i.queues name).array.length) :
    ∃ j found, i.findBy name test bound = .ok (j, found) ∧ j.Sound may P ∧ OnlyQueues i j ∧
      ∀ frame ∈ found, P frame ∧ ∃ before, test before = true ∧
        frame = { before with wasRead := true } := by
  have cells : 0 + bound ≤ (i.queues name).array.length := by omega
  obtain ⟨found, runs, hits⟩ := scan_spec Fault.outOfBounds test cells
  unfold findBy
  rw [runs]
  cases found with
  | none => exact ⟨i, none, rfl, sound, .refl i, nofun⟩
  | some hit =>
    obtain ⟨index, frame⟩ := hit
    obtain ⟨-, there, passed⟩ := hits _ rfl
    have kept := marks frame ((sound.queue name).frames frame (mem_of_getElem? there))
    refine ⟨_, _, rfl, sound.setFrame name index kept, ⟨_, rfl⟩, ?_⟩
    rintro _ ⟨⟩
    exact ⟨kept, frame, passed, rfl⟩

theorem findFrame_spec (name : QueueName) (minTs maxTs : Nat) :
    ∃ j found, i.findFrame name minTs maxTs = .ok (j, found) ∧ j.Sound may P ∧ OnlyQueues i j ∧
      ∀ frame ∈ found, P frame ∧ wanted minTs maxTs frame = true := by
  have queue := sound.queue name
  have inside : (i.queues name).arraySize ≤ (i.queues name).array.length := by
    rw [queue.size, ← queue.allocated]
    exact queue.real
  obtain ⟨j, found, runs, still, only, hits⟩ :=
    findBy_spec sound marks name (wanted minTs maxTs) inside
  refine ⟨j, found, runs, still, only, fun frame member => ?_⟩
  obtain ⟨kept, before, passed, rfl⟩ := hits frame member
  exact ⟨kept, passed⟩

theorem searchOthers_spec :
    ∃ j found, i.searchOthers = .ok (j, found) ∧ j.Sound may P ∧ OnlyQueues i j ∧
      ∀ frame ∈ found, P frame ∧ wanted i.lastWrTs i.curTs frame = true := by
  obtain ⟨j, found, runs, soundJ, only, hits⟩ :=
    findFrame_spec sound marks i.inQueue i.lastWrTs i.curTs
  unfold searchOthers
  rw [runs]
  cases found with
  | some frame => exact ⟨j, _, rfl, soundJ, only, hits⟩
  | none =>
    obtain ⟨k, found, runs, soundK, again, hits⟩ :=
      findFrame_spec soundJ marks j.oldQueue j.lastWrTs j.curTs
    refine ⟨k, found, runs, soundK, only.trans again, ?_⟩
    obtain ⟨_, rfl⟩ := only
    exact hits

theorem search_spec :
    ∃ j found, i.search = .ok (j, found) ∧ j.Sound may P ∧ OnlyQueues i j ∧
      ∀ frame ∈ found, P frame ∧ wanted i.lastWrTs i.curTs frame = true := by
  obtain ⟨j, found, runs, soundJ, only, hits⟩ :=
    findFrame_spec sound marks i.outQueue i.lastWrTs i.curTs
  unfold search
  rw [runs]
  cases found with
  | some frame =>
    refine ⟨_, _, rfl, soundJ.setLen _ ?_, only.trans ⟨_, rfl⟩, hits⟩
    exact (Nat.sub_le _ _).trans (soundJ.queue j.outQueue).len
  | none =>
    obtain ⟨k, found, runs, soundK, again, hits⟩ := searchOthers_spec soundJ marks
    refine ⟨k, found, runs, soundK, only.trans again, ?_⟩
    obtain ⟨_, rfl⟩ := only
    exact hits

theorem resync_spec {found : Option StfuFrame}
    (hits : ∀ frame ∈ found, P frame ∧ i.curTs = frame.ts) :
    ∃ j out, i.resync found = .ok (j, out) ∧ j.Sound may P ∧ j.lastWrTs = i.lastWrTs ∧
      (∀ frame ∈ out, P frame ∧ j.curTs = frame.ts) ∧ (i.syncOut = 0 → j = i ∧ out = found) := by
  unfold resync
  split
  · exact ⟨i, found, rfl, sound, rfl, hits, fun _ => ⟨rfl, rfl⟩⟩
  next asked =>
    cases found with
    | some frame =>
      exact ⟨_, _, rfl, sound.congr, rfl, hits,
        fun idle => absurd idle asked⟩
    | none =>
      have queue := sound.queue i.outQueue
      obtain ⟨j, any, runs, still, ⟨_, rfl⟩, anyHits⟩ := findBy_spec sound marks i.outQueue
        (fun frame => !frame.wasRead) queue.allocated.le
      unfold findAnyFrame
      rw [runs]
      refine ⟨_, any, rfl, ?_, ?_, ?_, fun idle => absurd idle asked⟩
      · cases any <;> exact still.congr
      · cases any <;> rfl
      · intro frame member
        obtain rfl : any = some frame := member
        exact ⟨(anyHits frame rfl).1, rfl⟩

theorem locate_spec :
    ∃ j found, i.locate = .ok (j, found) ∧ j.Sound may P ∧ j.lastWrTs = i.lastWrTs ∧
      (∀ frame ∈ found, P frame ∧ j.curTs = frame.ts) ∧
      (i.syncOut = 0 → (found = none → j.curTs = i.curTs) ∧
        ∀ frame ∈ found, wanted i.lastWrTs i.curTs frame = true) := by
  obtain ⟨j, found, searched, soundJ, ⟨queues, only⟩, hits⟩ := search_spec sound marks
  have here : ∀ frame ∈ found, P frame ∧ (j.follow found).curTs = frame.ts := by
    rintro frame rfl
    exact ⟨(hits frame rfl).1, rfl⟩
  obtain ⟨k, out, runs, soundK, last, outHits, idle⟩ :=
    resync_spec (follow_sound soundJ found) marks here
  unfold locate
  rw [searched]
  refine ⟨k, out, runs, soundK, ?_, outHits, fun none => ?_⟩
  · rw [last, only]
    cases found <;> rfl
  · obtain ⟨rfl, rfl⟩ := idle (by rw [only]; cases found <;> exact none)
    refine ⟨fun missing => ?_, fun frame member => (hits frame member).2⟩
    rw [missing, only]
    rfl

/-- **What a read comes to.** A frame that is returned is where the reader is now, and one that is
no concealment has `P`. In a reader that has read a frame and need not synchronise, the frame comes
later, and no frame means that nothing changed or that the instance was reset. -/
structure Played (P : StfuFrame → Prop) (i j : Stfu) (out : Option StfuFrame) : Prop where
  place : ∀ frame ∈ out, j.curTs = frame.ts ∧ j.lastWrTs = frame.ts ∧ frame.ts ≠ 0
  stored : ∀ frame ∈ out, frame.plc = false → P frame
  later : i.curTs = i.lastWrTs → i.curTs ≠ 0 → i.syncOut = 0 →
    (i.ready = true → i.curTs + i.samplesPerPacket < 2 ^ 32) →
      (∀ frame ∈ out, i.lastWrTs < frame.ts) ∧ (out = none → j = i ∨ j.syncIn ≠ 0)

theorem readAFrame_spec :
    Ends may i.readAFrame fun out => out.1.Sound may P ∧ Played P i out.1 out.2 := by
  have idle : Played P i i none := ⟨nofun, nofun, fun _ _ _ _ => ⟨nofun, fun _ => .inl rfl⟩⟩
  unfold readAFrame
  split
  · exact ⟨sound, idle⟩
  next runs =>
    have ready : i.ready = true := by
      rw [← Bool.not_eq_false]
      exact fun waits => runs (.inr waits)
    rcases advance_spec sound with punts | ⟨ts, seq, moves, next⟩
    · rw [punts]
      exact ⟨sound, idle⟩
    · have moved : Sound may P { i with curTs := ts, curSeq := seq } :=
        sound.congr
      obtain ⟨k, found, located, soundK, last, hits, searched⟩ := locate_spec moved marks
      rw [moves]
      dsimp only [bind, Except.bind]
      rw [located]
      refine (finish_spec soundK hits).mono fun out after => ?_
      obtain ⟨soundAfter, returned, resets⟩ := after
      refine ⟨soundAfter, ?_, ?_, fun same positive idle wraps => ?_⟩
      · intro frame member
        obtain ⟨ts, cur, last, nonzero, -⟩ := returned frame member
        rw [ts]
        exact ⟨cur, last, nonzero⟩
      · intro frame member
        exact (returned frame member).2.2.2.2
      · -- the place has moved behind the frame that was read last, whether or not one is found
        have onward : i.lastWrTs < k.curTs := by
          have fits := wraps ready
          rw [next positive, add_of_lt fits] at searched
          obtain ⟨missing, between⟩ := searched idle
          cases found with
          | none =>
            rw [missing rfl]
            dsimp only
            omega
          | some frame =>
            have later := between frame rfl
            rw [(hits frame rfl).2]
            unfold wanted at later
            simp only [decide_eq_true_eq] at later
            omega
        refine ⟨fun frame member => ?_, fun none => .inr ?_⟩
        · rw [(returned frame member).1]
          exact onward
        · rw [resets (by omega) none]
          exact one_ne_zero

end Read

end Sound

/-! ### Runs -/

/-- No resize to 0 takes effect, and no queue grows to a size that is 0 in 32 bits. -/
def LeavesFrames (i : Stfu) : StfuCall → Prop
  | .resize qlen => qlen ≠ 0 ∨ i.qlen = i.maxQlen
  | .addData _ => i.Grows
  | _ => True

theorem call_spec (zero : P .zero) (marks : ∀ frame, P frame → P { frame with wasRead := true })
    (sound : i.Sound may P) {call : StfuCall} (leaves : may ∨ i.LeavesFrames call)
    (fills : ∀ packet, call = .addData packet → ∀ frame, P frame → P (fill frame packet)) :
    Ends may (i.call call) fun out => out.1.Sound may P := by
  cases call with
  | addData packet =>
    refine (addData_spec sound packet (fun _ kept => kept) (fills packet rfl) zero leaves).map
      fun out added => ?_
    by_cases worked : out.2 = .itWorked
    · exact added.stored worked
    · exact added.refused worked
  | readAFrame => exact (readAFrame_spec sound marks).map fun _ => And.left
  | resize qlen =>
    refine resize_sound sound zero ?_ qlen.toNat_lt
    rcases leaves with failing | some_ | largest
    · exact .inr (.inl failing)
    · refine .inr (.inr (Nat.one_le_iff_ne_zero.mpr fun none => some_ ?_))
      exact UInt32.toNat_inj.mp none
    · exact .inl largest
  | sync packets => exact (sync_spec sound packets.toNat).map fun _ still => still
  | reset => exact (reset_spec sound).map fun _ => And.left

def next (state : Except Fault Stfu) (call : StfuCall) : Except Fault Stfu := do
  let i ← state
  let (i, _) ← i.call call
  return i

/-- Three distinct queues, none longer than its size, no size beyond what is allocated. -/
structure Structured (i : Stfu) : Prop where
  inOut : i.inQueue ≠ i.outQueue
  inOld : i.inQueue ≠ i.oldQueue
  outOld : i.outQueue ≠ i.oldQueue
  sizes : ∀ name, (i.queues name).arrayLen ≤ (i.queues name).arraySize ∧
    (i.queues name).arraySize ≤ (i.queues name).realArraySize ∧
    (i.queues name).realArraySize = (i.queues name).array.length

theorem Sound.structured (sound : i.Sound may P) : i.Structured where
  inOut := sound.inOut
  inOld := sound.inOld
  outOld := sound.outOld
  sizes name := by
    have queue := sound.queue name
    refine ⟨?_, ?_, queue.allocated⟩
    · rw [queue.size]
      exact queue.len
    · rw [queue.size]
      exact queue.real

theorem next_sound (zero : P .zero) (marks : ∀ frame, P frame → P { frame with wasRead := true })
    (fills : ∀ packet frame, P frame → P (fill frame packet)) {state : Except Fault Stfu}
    {call : StfuCall} (here : ∃ i, state = .ok i ∧ i.Sound False P)
    (leaves : ∀ i, state = .ok i → i.LeavesFrames call) :
    ∃ j, next state call = .ok j ∧ j.Sound False P := by
  obtain ⟨i, rfl, sound⟩ := here
  refine Ends.returns ?_
  change Ends False (i.call call >>= _) _
  refine (call_spec zero marks sound (.inr (leaves i rfl)) fun packet _ => fills packet).bind ?_
  rintro ⟨j, reply⟩ still
  exact still

end Stfu

/-- **The structure of the queues**: in every run from a new instance of at least one frame, in which
no call leaves the queues without frames, no call faults, and in every state the three roles are
played by three queues whose lengths and sizes fit what is allocated. -/
theorem structure_kept {qlen maxQlen samplesPerPacket samplesPerSecond maxDriftMs : UInt32}
    {debug : Bool} {i : Stfu} (nonempty : 1 ≤ qlen)
    (created :
      init qlen maxQlen samplesPerPacket samplesPerSecond maxDriftMs debug = .ok i)
    {calls : List StfuCall}
    (leaves : Run.Along next (fun state call => ∀ i, state = .ok i → i.LeavesFrames call)
      (.ok i) calls) :
    ∀ done, done <+: calls → ∃ j, Run.run next (.ok i) done = .ok j ∧ j.Structured := by
  intro done begins
  have sound : i.Sound False fun _ => True := init_sound trivial (.inr nonempty) created
  obtain ⟨j, state, still⟩ := Run.run_keeps
    (P := fun state => ∃ j : Stfu, state = .ok j ∧ j.Sound False fun _ => True)
    (fun _ _ => next_sound trivial (fun _ _ => trivial) (fun _ _ _ => trivial))
    ⟨i, rfl, sound⟩ (leaves.beginning begins)
  exact ⟨j, state, still.structured⟩

/-- An instance of three frames that takes a packet, is read, resized and reset. -/
theorem structure_kept_three : ∃ i, init 3 50 160 8000 0 false = .ok i ∧
    ∀ done, done <+: [.addData ⟨160, 1, 0, [1, 2], 0, false⟩, .readAFrame, .resize 5, .reset] →
      ∃ j, Run.run next (.ok i) done = .ok j ∧ j.Structured := by
  refine ⟨_, rfl, @structure_kept 3 50 160 8000 0 false _ (by decide) rfl _ ⟨fun i same => ?_,
    fun _ _ => trivial, fun _ _ => .inl (by decide), fun _ _ => trivial, trivial⟩⟩
  obtain rfl := Except.ok.inj same
  exact fun _ => .inr (by decide)

/-- A resize to 0 takes effect: then the assertion fails for the next packet, and a reset does not
return. -/
theorem resize_to_zero_faults :
    (init 3 50 160 8000 0 false).bind (fun i => Run.run next (.ok i)
      [.resize 0, .addData ⟨160, 1, 0, [1, 2], 0, false⟩]) = .error .assertion ∧
    (init 3 50 160 8000 0 false).bind (fun i => Run.run next (.ok i)
      [.resize 0, .reset]) = .error .endless := by
  refine ⟨rfl, rfl⟩

end FreeSwitch
