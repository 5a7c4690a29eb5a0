/-
**Sizes that make the jitter buffer fail.**

`stfu_n_resize` refuses every size once the queues have the largest one, so that a buffer that has
grown so far does not shrink again. `stfu_n_init` divides by the samples of a packet, which may be
given as 0 to be learnt later; no other division is by zero.

* **`resize_works_iff`**: a resize takes effect exactly when the queues do not have the largest size;
* **`divisions_fine_iff`**: no division is by zero exactly when the samples of a packet are given.
-/

import FreeSwitch.Jitter.Structure

namespace FreeSwitch

open Stfu Unsigned

open Fallible (Avoids Ends)

namespace Stfu

variable {i : Stfu} {P : StfuFrame → Prop}

/-! ### Resizing -/

/-- The call succeeds, and the queues have the size that was asked for. -/
def Resized (i : Stfu) (qlen : Nat) : Prop :=
  (i.resize qlen).2 = .itWorked ∧ (i.resize qlen).1.qlen = qlen

/-- Where the packets come in well, the two shrinking steps leave one frame less. -/
structure Shrinks (i : Stfu) : Prop where
  losses : ¬ i.qlen * 2 % 2 ^ 32 < i.periodMissingCount → i.origQlen < i.qlen →
    (i.decrementTime < i.consecutiveGoodCount ∨ i.decrementTime < i.periodCleanCount) →
      ∃ j, i.adaptToLosses = .ok j ∧ j.qlen + 1 = i.qlen
  period : i.periodTime < i.periodPacketInCount → i.periodMissingCount = 0 → i.origQlen < i.qlen →
    ∀ ts, ∃ j, i.adaptToPeriod ts = .ok j ∧ j.qlen + 1 = i.qlen

theorem resized_iff {qlen : Nat} (fits : qlen ≤ i.maxQlen) :
    i.Resized qlen ↔ i.qlen ≠ i.maxQlen := by
  unfold Resized resize
  split
  next largest => exact ⟨nofun, fun smaller => absurd largest smaller⟩
  next smaller =>
    rw [if_neg (by omega)]
    exact ⟨fun _ => smaller, fun _ => ⟨rfl, rfl⟩⟩

theorem resize_less (sound : i.Sound True P) (smaller : i.qlen < i.maxQlen) (larger : i.origQlen < i.qlen) :
    (i.resize (sub 32 i.qlen 1)).1.qlen + 1 = i.qlen := by
  have less : sub 32 i.qlen 1 = i.qlen - 1 := sub_of_le (by omega) sound.small
  have resized : i.Resized (sub 32 i.qlen 1) :=
    (resized_iff (by omega)).mpr (by omega)
  rw [resized.2]
  omega

theorem Sound.shrinks (sound : i.Sound True P) (smaller : i.qlen < i.maxQlen) : i.Shrinks := by
  have samples := sound.samples
  constructor
  · intro few larger good
    unfold adaptToLosses
    rw [if_neg few, if_pos ⟨larger, good⟩]
    rw [sync_all]
    exact ⟨_, rfl, resize_less sound smaller larger⟩
  · intro passed none larger ts
    unfold adaptToPeriod
    rw [if_neg (by omega), if_pos passed, if_pos ⟨none, larger⟩]
    dsimp only
    rw [sync_all]
    exact ⟨_, rfl, resize_less sound smaller larger⟩

theorem run_sound {qlen maxQlen samplesPerPacket samplesPerSecond maxDriftMs : UInt32} {debug : Bool}
    (calls : List StfuCall) :
    Ends True (Run.run next (init qlen maxQlen samplesPerPacket samplesPerSecond maxDriftMs debug)
      calls) (Sound True fun _ => True) := by
  refine Run.run_keeps_all (P := fun state => Ends True state (Sound True fun _ => True))
    (fun state call sound => ?_) ?_ calls
  · refine sound.bind fun i sound => ?_
    exact (call_spec trivial (fun _ _ => trivial) sound (.inl trivial)
      fun _ _ _ _ => trivial).bind fun _ still => still
  · cases created : init qlen maxQlen samplesPerPacket samplesPerSecond maxDriftMs debug with
    | error fault => trivial
    | ok i => exact init_sound trivial (.inl trivial) created

/-! ### Divisions -/

theorem place_divides (i : Stfu) (packet : StfuPacket) :
    Avoids .divisionByZero (i.place packet) := by
  unfold place
  dsimp only
  split_ifs
  · nofun
  · split <;> nofun
  · nofun

theorem accept_divides (sound : i.Sound True fun _ => True) (packet : StfuPacket) (good : Bool) :
    Avoids .divisionByZero (i.accept packet good) := by
  have counted : (i.count good).Sound True fun _ => True :=
    sound.congr
  obtain ⟨j, losses, soundJ, -⟩ := adaptToLosses_spec counted trivial (.inl trivial)
  obtain ⟨k, period, -⟩ := adaptToPeriod_spec soundJ trivial packet.ts.toNat
  unfold accept
  rw [losses]
  change Avoids _ (j.adaptToPeriod packet.ts.toNat >>= _)
  rw [period]
  exact place_divides k packet

theorem addData_divides (sound : i.Sound True fun _ => True) (packet : StfuPacket) :
    Avoids .divisionByZero (i.addData packet) := by
  have soundJ := sound.congr (i.drift_same packet.ts.toNat packet.timerTs.toNat).1
  unfold addData
  dsimp only
  rw [learn_eq sound]
  dsimp only
  generalize i.drift packet.ts.toNat packet.timerTs.toNat = out at *
  obtain ⟨j, goes⟩ := out
  cases goes with
  | false => nofun
  | true =>
    dsimp only
    split_ifs
    · have cleared : Sound True (fun _ => True) { j with syncIn := 0 } :=
        soundJ.congr
      exact accept_divides cleared packet true
    · exact accept_divides soundJ packet _
    · nofun

theorem reset_divides (i : Stfu) : Avoids .divisionByZero i.reset := by
  unfold reset
  split <;> nofun

theorem miss_divides (sound : i.Sound True fun _ => True) : Avoids .divisionByZero i.miss := by
  unfold miss
  rw [logMissing_spec sound]
  dsimp only [bind, Except.bind]
  split_ifs
  · exact (reset_divides i).bind fun _ _ => nofun
  · exact (reset_divides i.substitute).bind fun _ _ => nofun
  · nofun

theorem finish_divides (sound : i.Sound True fun _ => True) (found : Option StfuFrame) :
    Avoids .divisionByZero (i.finish found) := by
  unfold finish
  split
  · nofun
  · cases found with
    | some frame => nofun
    | none =>
      have counted : Sound True (fun _ => True) { i with
          periodMissingCount := add 32 i.periodMissingCount 1 } :=
        sound.congr
      exact miss_divides counted

theorem readAFrame_divides (sound : i.Sound True fun _ => True) :
    Avoids .divisionByZero i.readAFrame := by
  unfold readAFrame
  split
  · nofun
  · rcases advance_spec sound with punts | ⟨ts, seq, moves, -⟩
    · rw [punts]
      nofun
    · have moved : Sound True (fun _ => True) { i with curTs := ts, curSeq := seq } :=
        sound.congr
      obtain ⟨k, found, located, soundK, -⟩ := locate_spec moved fun _ _ => trivial
      rw [moves]
      dsimp only [bind, Except.bind]
      rw [located]
      exact finish_divides soundK found

theorem call_divides (sound : i.Sound True fun _ => True) (call : StfuCall) :
    Avoids .divisionByZero (i.call call) := by
  cases call with
  | addData packet => exact (addData_divides sound packet).map
  | readAFrame => exact (readAFrame_divides sound).map
  | resize qlen => nofun
  | sync packets =>
    refine Avoids.map ?_
    unfold sync
    split
    · exact reset_divides i
    · nofun
  | reset => exact (reset_divides i).map

end Stfu

/-- **A resize to a size within the limit takes effect, and so do the steps that shrink the queues,
exactly when the queues do not have the largest size.** -/
theorem resize_works_iff {qlen maxQlen samplesPerPacket samplesPerSecond maxDriftMs : UInt32}
    {debug : Bool} {calls : List StfuCall} {i : Stfu}
    (reached : Run.run next
      (init qlen maxQlen samplesPerPacket samplesPerSecond maxDriftMs debug) calls = .ok i)
    {size : Nat} (fits : size ≤ i.maxQlen) :
    (i.Resized size ∧ (i.qlen ≤ i.maxQlen → i.Shrinks)) ↔ i.qlen ≠ i.maxQlen := by
  have sound := (run_sound calls).of_returns reached
  rw [resized_iff fits]
  exact ⟨And.left, fun smaller => ⟨smaller, fun inside => sound.shrinks (by omega)⟩⟩

/-- Queues of four frames that have grown to five and taken a packet shrink to two. -/
theorem resize_works_half : ∃ i, Run.run next (init 4 10 160 8000 0 false)
      [.resize 5, .addData ⟨160, 1, 0, [], 0, false⟩] = .ok i ∧
    i.Resized 2 ∧ (i.qlen ≤ i.maxQlen → i.Shrinks) :=
  ⟨_, rfl, (@resize_works_iff 4 10 160 8000 0 false
    [.resize 5, .addData ⟨160, 1, 0, [], 0, false⟩] _ rfl 2 (by decide)).mpr (by decide)⟩

/-- Queues of one frame that have grown to the two frames of their limit do not shrink to one. -/
theorem grown_buffer_stuck : ∃ i,
    Run.run next (init 1 2 160 8000 0 false) [.resize 2] = .ok i ∧ i.qlen = 2 ∧
      (i.resize 1).2 = .itFailed ∧ (i.resize 1).1.qlen = 2 :=
  ⟨_, rfl, rfl, rfl, rfl⟩

/-- **No division is by zero exactly when the samples of a packet are given.** -/
theorem divisions_fine_iff (qlen maxQlen samplesPerPacket samplesPerSecond maxDriftMs : UInt32)
    (debug : Bool) (calls : List StfuCall) :
    Run.run next (init qlen maxQlen samplesPerPacket samplesPerSecond maxDriftMs debug)
      calls ≠ .error .divisionByZero ↔ samplesPerPacket ≠ 0 := by
  constructor
  · rintro fine rfl
    refine fine (Run.run_keeps_all (P := fun state : Except Fault Stfu =>
      state = .error .divisionByZero) (fun state call failed => ?_) rfl calls)
    rw [failed]
    rfl
  · intro given
    induction calls using List.reverseRecOn with
    | nil =>
      unfold init
      rw [Run.run_nil, if_neg given]
      nofun
    | append_singleton calls call ih =>
      rw [Run.run_append]
      refine Avoids.bind ih fun i reached => ?_
      exact (call_divides ((run_sound calls).of_returns reached) call).bind
        fun _ _ => nofun

/-- The samples of a packet are to be learnt, and the first division is by zero. -/
theorem samples_to_learn_divides : init 1 10 0 8000 0 false = .error .divisionByZero := rfl

end FreeSwitch
