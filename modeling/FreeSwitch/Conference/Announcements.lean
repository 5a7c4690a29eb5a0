/-
**Announcements in a conference.**

In each pass `conference_thread_run` may read from two nodes: a file or speech that all wait for, and a
file that is played beside it. Both leave the number of samples in `file_sample_len`, and the frame keeps
what it held in the pass before. So a short read brings old samples, and -1 behind them, and the end of
the second file silences the first.

* **`announced_iff`**: what is entered into the main frame is the sum of what was delivered, whatever
  that is, exactly when both deliver whole frames, of which the second may lack its last sample.
-/

import FreeSwitch.Conference.Mix

namespace FreeSwitch

/-! ### The code -/

/-- What is read from a node: so many samples. -/
structure NodeRead where
  count : Nat
  sample : Nat → BitVec 16

/-- `has_file_data`, `file_sample_len` and `file_frame`. -/
structure FilePass where
  hasFileData : Bool
  sampleLen : Nat
  frame : Nat → BitVec 16

/-- Samples read or copied into a frame, which keeps the others. -/
def NodeRead.into (read : NodeRead) (frame : Nat → BitVec 16) (x : Nat) : BitVec 16 :=
  if x < read.count then read.sample x else frame x

/-- The node `fnode`; nothing is read if it is absent, paused, leading in or done. -/
def readFnode (samples : Nat) (frame : Nat → BitVec 16) : Option NodeRead → FilePass
  | none => ⟨false, samples, frame⟩
  | some read => ⟨read.count ≠ 0, read.count, read.into frame⟩

/-- The node `async_fnode`, read into a frame of its own. -/
def FilePass.readAsync (pass : FilePass) : Option NodeRead → FilePass
  | none => pass
  | some read =>
    if read.count = 0 then { pass with sampleLen := 0 }
    else if pass.hasFileData then
      { pass with
        sampleLen := read.count
        frame := fun x => if x < read.count then
            BitVec.ofInt 16 (normalizeTo16bit ((pass.frame x).toInt + (read.sample x).toInt))
          else pass.frame x }
    else ⟨true, read.count, read.into pass.frame⟩

/-- `main_frame[x]` before the members are added. -/
def FilePass.entered (pass : FilePass) (x : Nat) : Int :=
  if pass.hasFileData ∧ pass.sampleLen ≠ 0 then
    if x ≤ pass.sampleLen then (pass.frame x).toInt else -1
  else 0

/-! ### What is to be heard -/

open FilePass NodeRead Option

def NodeRead.part (read : NodeRead) (x : Nat) : Int :=
  if x < read.count then (read.sample x).toInt else 0

/-- The clamped sum of what was delivered. -/
def announced (sync async : Option NodeRead) (x : Nat) : Int :=
  normalizeTo16bit (sync.elim 0 (·.part x) + async.elim 0 (·.part x))

theorem normalizeTo16bit_toInt (a : BitVec 16) : normalizeTo16bit a.toInt = a.toInt := by
  have low := a.le_toInt
  have high := a.toInt_lt
  unfold normalizeTo16bit
  split_ifs <;> omega

theorem bmod_normalized (z : Int) : (normalizeTo16bit z).bmod 65536 = normalizeTo16bit z := by
  refine Int.bmod_eq_of_le ?_ ?_ <;> unfold normalizeTo16bit <;> split_ifs <;> omega

/-- A node that is read delivers this many samples. -/
def delivery (count : Option Nat) (sample : Nat → BitVec 16) : Option NodeRead :=
  count.map fun n => ⟨n, sample⟩

/-- **What was delivered is entered**, whatever the frame held before. -/
def Announced (samples : Nat) (sync async : Option Nat) : Prop :=
  ∀ (frame first second : Nat → BitVec 16), ∀ x < samples,
    ((readFnode samples frame (delivery sync first)).readAsync (delivery async second)).entered x =
      announced (delivery sync first) (delivery async second) x

/-- Both nodes deliver whole frames; the second may lack the last sample if there is a first. -/
def WholeFrames (samples : Nat) (sync async : Option Nat) : Prop :=
  if sync.getD 0 = 0 then async.getD 0 = 0 ∨ async.getD 0 = samples
  else sync = some samples ∧ ∀ m ∈ async, m ≠ 0 ∧ samples ≤ m + 1

section Nodes

variable {samples n m : Nat}

theorem single_iff (some_ : n ≠ 0) (fits : n ≤ samples) :
    (∀ (frame sample : Nat → BitVec 16), ∀ x < samples,
      (⟨true, n, into ⟨n, sample⟩ frame⟩ : FilePass).entered x =
        normalizeTo16bit (part ⟨n, sample⟩ x)) ↔ n = samples := by
  constructor
  · intro all
    by_contra short
    have stale := all (fun _ => 1) (fun _ => 0) n (by omega)
    simp [entered, some_, into, part, normalizeTo16bit] at stale
  · rintro rfl frame sample x inside
    simp [entered, some_, inside.le, inside, into, part,
      normalizeTo16bit_toInt]

theorem both_iff (some_ : n ≠ 0) (fits : n ≤ samples) (other : m ≠ 0) :
    Announced samples (some n) (some m) ↔ n = samples ∧ samples ≤ m + 1 := by
  have entered (frame first second : Nat → BitVec 16) (x : Nat) :
      ((readFnode samples frame (delivery (some n) first)).readAsync
        (delivery (some m) second)).entered x =
      if x < m then normalizeTo16bit ((into ⟨n, first⟩ frame x).toInt + (second x).toInt)
      else if x ≤ m then (into ⟨n, first⟩ frame x).toInt else -1 := by
    simp only [delivery, map_some, readFnode, readAsync, if_neg other, entered]
    by_cases inside : x < m
    · simp [some_, other, inside, inside.le, bmod_normalized]
    · simp [some_, other, inside]
  constructor
  · intro all
    have whole : n = samples := by
      by_contra short
      have stale := all (fun _ => 1) (fun _ => 0) (fun _ => 0) n (by omega)
      rw [entered] at stale
      simp [into, announced, delivery, part] at stale
      split_ifs at stale <;> simp [normalizeTo16bit] at stale
    refine ⟨whole, ?_⟩
    by_contra short
    have behind := all (fun _ => 0) (fun _ => 0) (fun _ => 0) (m + 1) (by omega)
    rw [entered, if_neg (by omega), if_neg (by omega)] at behind
    simp [announced, delivery, part, normalizeTo16bit] at behind
  · rintro ⟨rfl, last⟩ frame first second x inside
    rw [entered]
    by_cases early : x < m
    · simp [early, inside, into, announced, delivery, part]
    · simp [early, inside, show x ≤ m by omega, into, announced, delivery, part,
        normalizeTo16bit_toInt]

theorem silent_entered {sync : Option Nat} (silent : sync.getD 0 = 0) (frame first : Nat → BitVec 16)
    (async : Option NodeRead) (x : Nat) :
    ((readFnode samples frame (delivery sync first)).readAsync async).entered x =
      async.elim 0 fun read => (⟨read.count ≠ 0, read.count, read.into frame⟩ : FilePass).entered x := by
  obtain rfl | ⟨rfl, -⟩ := getD_eq_iff.mp silent
  all_goals cases async with
    | none => rfl
    | some read =>
      by_cases none_ : read.count = 0 <;>
        simp [delivery, readFnode, readAsync, entered, none_, into]

theorem silent_announced {sync : Option Nat} (silent : sync.getD 0 = 0) (first : Nat → BitVec 16)
    (async : Option NodeRead) (x : Nat) :
    announced (delivery sync first) async x = async.elim 0 fun read => normalizeTo16bit (read.part x) := by
  obtain rfl | ⟨rfl, -⟩ := getD_eq_iff.mp silent
  all_goals cases async with
    | none => simp [announced, delivery, part, normalizeTo16bit]
    | some read => simp [announced, delivery, part]

end Nodes

/-- **The announcements are entered as they are delivered exactly when both nodes deliver whole frames.** -/
theorem announced_iff {samples : Nat} (sync async : Option (Fin (samples + 1))) :
    Announced samples (sync.map (·.val)) (async.map (·.val)) ↔
      WholeFrames samples (sync.map (·.val)) (async.map (·.val)) := by
  have whole (count : Option (Fin (samples + 1))) : ∀ n ∈ count.map (·.val), n ≤ samples := by
    rintro n member
    obtain ⟨n, -, rfl⟩ := mem_map.mp member
    omega
  have first := whole sync
  have second := whole async
  generalize sync.map (·.val) = sync at *
  generalize async.map (·.val) = async at *
  unfold WholeFrames
  split_ifs with silent
  · simp only [Announced, silent_entered silent, silent_announced silent]
    cases async with
    | none => simp [delivery]
    | some m =>
      by_cases none_ : m = 0
      · simp [delivery, none_, entered, part, normalizeTo16bit]
      · simp only [delivery, map_some, elim_some, getD_some, none_, false_or]
        rw [← single_iff none_ (second m rfl)]
        simp [none_]
  · obtain ⟨n, rfl⟩ : ∃ n, sync = some n := by
      cases sync with
      | none => exact absurd rfl silent
      | some n => exact ⟨n, rfl⟩
    have some_ : n ≠ 0 := silent
    cases async with
    | none =>
      have alone := single_iff some_ (first n rfl)
      simp only [part] at alone
      simp [Announced, delivery, readFnode, readAsync, announced, part, some_, alone]
    | some m =>
      by_cases none_ : m = 0
      · subst none_
        refine iff_of_false (fun all => ?_) (fun whole => (whole.2 0 rfl).1 rfl)
        have lost := all (fun _ => 0) (fun _ => 1) (fun _ => 0) 0 (by have := first n rfl; omega)
        simp [delivery, readFnode, readAsync, entered, announced, part,
          some_, Nat.pos_of_ne_zero some_, normalizeTo16bit] at lost
      · rw [both_iff some_ (first n rfl) none_]
        simp [none_]

/-- A file whose last read is short: the sample behind it is the one of the frame before. -/
theorem short_read_stale : ¬ Announced 2 (some 1) none := by
  intro all
  exact absurd (all (fun _ => 7) (fun _ => 3) (fun _ => 0) 1 (by decide)) (by decide)

end FreeSwitch
