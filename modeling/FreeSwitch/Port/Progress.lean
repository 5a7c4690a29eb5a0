/-
**Requests for a port come to an end.**

A request passes the table again and again while no cell is 0. Each pass cools every cell that is
below zero by one, so that the passes end as long as one cell is not out. That there is one is what
`track_used < track_len` says, where `track_used` counts the cells that are out; it does not after
a port is given back whose cell is behind the table, when the memory there is positive.

* `cooling`: what is left of the cooling down of all cells; `walk_cools` — a pass takes from it;
* **`requests_succeed`**: when every request returns a port.
-/

import FreeSwitch.Port.Exclusive

namespace FreeSwitch

open Function List PortAllocator Run
open Tally (tally tally_congr tally_le tally_eq_zero tally_mark tally_unmark)

def cooling (trackLen : Nat) (track : Nat → Int) : Nat :=
  ∑ i ∈ Finset.range trackLen, (-track i).toNat

theorem cooling_update {trackLen index : Nat} {track : Nat → Int} (inside : index < trackLen)
    (low : track index < 0) :
    cooling trackLen (update track index (track index + 1)) < cooling trackLen track := by
  refine Finset.sum_lt_sum (fun i _ => ?_) ⟨index, Finset.mem_range.mpr inside, ?_⟩
  · by_cases same : i = index
    · subst same
      rw [update_self]
      omega
    · rw [update_of_ne same]
  · rw [update_self]
    omega

/-- **A walk takes from the cooling** when it passes a cell that is not out and finds none. -/
theorem walk_cools {trackLen : Nat} (fuel : Nat) (track : Nat → Int) {index : Nat}
    (inside : index < trackLen) :
    cooling trackLen (walk trackLen fuel track index).1 ≤ cooling trackLen track ∧
      ((walk trackLen fuel track index).2 = none →
        (∃ d < fuel, track ((index + d) % trackLen) ≤ 0) →
        cooling trackLen (walk trackLen fuel track index).1 < cooling trackLen track) := by
  induction fuel generalizing track index with
  | zero =>
    refine ⟨le_rfl, fun _ low => ?_⟩
    obtain ⟨d, few, -⟩ := low
    exact absurd few (Nat.not_lt_zero d)
  | succ fuel ih =>
    have next : (if trackLen ≤ index + 1 then 0 else index + 1) = (index + 1) % trackLen := by
      split_ifs with end_
      · rw [show index + 1 = trackLen by omega, Nat.mod_self]
      · exact (Nat.mod_eq_of_lt (by omega)).symm
    have further : (index + 1) % trackLen < trackLen := Nat.mod_lt _ (by omega)
    rw [walk, next]
    split_ifs with free low
    · exact ⟨le_rfl, False.elim⟩
    · have less := cooling_update inside low
      have rest := (ih (update track index (track index + 1)) further).1
      exact ⟨(rest.trans_lt less).le, fun _ _ => rest.trans_lt less⟩
    · obtain ⟨rest, strict⟩ := ih track further
      refine ⟨rest, fun none_ low => strict none_ ?_⟩
      obtain ⟨d, few, cell⟩ := low
      cases d with
      | zero =>
        rw [Nat.add_zero, Nat.mod_eq_of_lt inside] at cell
        omega
      | succ d =>
        refine ⟨d, by omega, ?_⟩
        rwa [Nat.mod_add_mod, show index + 1 + d = index + (d + 1) by omega]

namespace PortAllocator

variable {a after : PortAllocator}

/-- `track_used` counts the cells that are out. -/
structure Counted (a : PortAllocator) : Prop where
  count : a.trackUsed = tally (0 < ·) a.track a.trackLen
  small : a.trackLen < 2 ^ 32

theorem Counted.exists_low (counted : a.Counted) (room : a.trackUsed < a.trackLen) :
    ∃ i < a.trackLen, a.track i ≤ 0 := by
  by_contra! out
  have all : tally (0 < ·) a.track a.trackLen = a.trackLen := by
    rw [tally, Finset.filter_true_of_mem fun i member => out i (Finset.mem_range.mp member),
      Finset.card_range]
  have count := counted.count
  omega

/-- **A request ends**, at the latest when all cells have cooled down. -/
theorem Counted.succeeds (counted : a.Counted) (room : a.trackUsed < a.trackLen)
    (plain : a.flags.robustTcp = false ∧ a.flags.robustUdp = false) {attempts : List Attempt}
    (enough : cooling a.trackLen a.track < attempts.length) :
    ∃ after port, a.requestPort attempts = some (after, some port) := by
  induction attempts generalizing a with
  | nil => exact absurd enough (Nat.not_lt_zero _)
  | cons attempt attempts ih =>
    have inside : attempt.pick % a.trackLen < a.trackLen := Nat.mod_lt _ (by omega)
    have walked := walk_spec a.trackLen a.track inside
    have cools := (walk_cools a.trackLen a.track inside).2
    have passes : a.passes attempt = true := by simp [passes, plain.1, plain.2]
    rw [requestPort, if_pos room, tryPort]
    generalize walk a.trackLen a.trackLen a.track (attempt.pick % a.trackLen) = result at walked cools
    obtain ⟨track, _ | index⟩ := result
    · obtain ⟨i, low, cell⟩ := counted.exists_low room
      -- the walk goes once round the table, and so passes this cell
      have passed : ∃ d < a.trackLen, a.track ((attempt.pick % a.trackLen + d) % a.trackLen) ≤ 0 := by
        refine ⟨(i + a.trackLen - attempt.pick % a.trackLen) % a.trackLen, Nat.mod_lt _ (by omega), ?_⟩
        rw [Nat.add_mod_mod, show attempt.pick % a.trackLen +
          (i + a.trackLen - attempt.pick % a.trackLen) = i + a.trackLen by omega, Nat.add_mod_right,
          Nat.mod_eq_of_lt low]
        exact cell
      have less := cools rfl passed
      have same : a.trackUsed = tally (0 < ·) track a.trackLen :=
        counted.count.trans (tally_congr _ fun i _ => (walked.positive i).symm)
      rw [length_cons] at enough
      exact ih (a := { a with track := track }) ⟨same, counted.small⟩ room plain (by
        dsimp only at less ⊢
        omega)
    · dsimp only
      rw [if_pos passes]
      exact ⟨_, _, rfl⟩

/-- A request does not end while every cell is out and `track_used` says otherwise. -/
theorem requestPort_out (room : a.trackUsed < a.trackLen) (out : ∀ i < a.trackLen, 0 < a.track i)
    (attempts : List Attempt) : a.requestPort attempts = none := by
  induction attempts generalizing a with
  | nil => rw [requestPort, if_pos room]
  | cons attempt attempts ih =>
    have inside : attempt.pick % a.trackLen < a.trackLen := Nat.mod_lt _ (by omega)
    have walked := walk_spec a.trackLen a.track inside
    rw [requestPort, if_pos room, tryPort]
    generalize walk a.trackLen a.trackLen a.track (attempt.pick % a.trackLen) = result at walked
    obtain ⟨track, _ | index⟩ := result
    · exact ih (a := { a with track := track }) room fun i low =>
        (out i low).trans_eq (walked.out i (out i low)).symm
    · obtain ⟨low, zero⟩ := walked.found index rfl
      have cell := walked.out index (out index low)
      have still := out index low
      omega

theorem Requested.counted {port : Option Nat} (counted : a.Counted) (alike : Alike a after)
    (requested : Requested a after port) : after.Counted := by
  have small := counted.small
  have count := counted.count
  refine ⟨?_, alike.trackLen ▸ small⟩
  rw [alike.trackLen]
  cases requested with
  | nothing same used => rw [used, count, tally_congr _ fun i _ => same i]
  | @one i inside before cells room used =>
    have marked := @tally_mark _ (0 < ·) _ a.track _ _ 1 inside before (by decide)
    rw [used, Unsigned.add, Nat.mod_eq_of_lt (by omega), count, ← marked]
    refine tally_congr _ fun j _ => ?_
    rw [cells, update_apply]
    split_ifs with same
    · exact iff_of_true (by decide) (.inl same)
    · exact (or_iff_right same).symm

end PortAllocator

/-- No port is given back whose cell is behind the table, where that memory is positive. -/
def Ports.Within (p : Ports) : PortOp → Prop
  | .request _ => True
  | .free port => ∀ i ∈ p.allocator.freeIndex port,
      i < p.allocator.trackLen ∨ p.allocator.track i ≤ 0

structure ProgressInv (p : Ports) : Prop where
  counted : p.allocator.Counted
  plain : p.allocator.flags.robustTcp = false ∧ p.allocator.flags.robustUdp = false

theorem ProgressInv.step (p : Ports) (op : PortOp) (inv : ProgressInv p) (within : p.Within op) :
    ProgressInv (p.step op) := by
  cases op with
  | request attempts =>
    rw [Ports.step]
    split
    next a port returns =>
      have alike := requestPort_alike returns
      exact ⟨(requestPort_requested returns).counted inv.counted alike,
        alike.flags ▸ inv.plain⟩
    next a returns =>
      have alike := requestPort_alike returns
      exact ⟨(requestPort_requested returns).counted inv.counted alike,
        alike.flags ▸ inv.plain⟩
    next => exact inv
  | free port =>
    have alike := freePort_alike p.allocator port
    refine ⟨?_, alike.flags ▸ inv.plain⟩
    show (p.allocator.freePort port).1.Counted
    have freed := freePort_freed p.allocator port
    generalize p.allocator.freePort port = result at freed
    cases freed with
    | refused => exact inv.counted
    | @done i index out =>
      have inside := (within i index).resolve_right (by omega)
      have unmarked := @tally_unmark _ (0 < ·) _ p.allocator.track _ _ (-4) inside out (by decide)
      have few := tally_le (0 < ·) p.allocator.track p.allocator.trackLen
      have count := inv.counted.count
      have small := inv.counted.small
      refine ⟨?_, small⟩
      dsimp only
      rw [Unsigned.sub]
      omega

/-- **Requests succeed**: in every run in which no port behind the table is given back, a request with
`track_used < track_len` returns a port after so many passes, whatever is picked. -/
theorem requests_succeed {start last : Nat} {flags : PortFlags} {outside : Nat → Int}
    (plain : flags.robustTcp = false ∧ flags.robustUdp = false) {ops : List PortOp}
    (within : Along Ports.step Ports.Within
      (.start (.create start last flags false outside)) ops) :
    let a := (run Ports.step (.start (.create start last flags false outside)) ops).allocator
    a.trackUsed < a.trackLen → ∃ n, ∀ attempts : List Attempt, n ≤ attempts.length →
      ∃ after port, a.requestPort attempts = some (after, some port) := by
  intro a room
  have small : trackLenOf flags (roundStart flags start) (roundEnd flags last) < 2 ^ 32 := by
    unfold trackLenOf
    dsimp only
    split <;> omega
  have start_ : ProgressInv (.start (.create start last flags false outside)) :=
    ⟨⟨(tally_eq_zero _ fun i low => by
        have zero : (create start last flags false outside).track i = 0 :=
          create_zeroed start last flags false outside i low
        exact zero.not_gt).symm, small⟩, plain.1, by simp [Ports.start, create, plain.2]⟩
  have inv := run_keeps ProgressInv.step start_ within
  exact ⟨_, fun attempts enough => inv.counted.succeeds room inv.plain (Nat.lt_of_succ_le enough)⟩

/-- After a port was requested and given back. -/
theorem requests_succeed_one :
    let a := (run Ports.step (.start (.create 10 10 ⟨true, true, false, false⟩ false fun _ => 1))
      [.request [⟨0, false, false⟩], .free 10]).allocator
    a.trackUsed < a.trackLen ∧ ∃ n, ∀ attempts : List Attempt, n ≤ attempts.length →
      ∃ after port, a.requestPort attempts = some (after, some port) :=
  ⟨by decide, requests_succeed (by decide)
    ⟨trivial, fun i index => .inl (by revert i; decide), trivial⟩ (by decide)⟩

/-- **A port behind the table is given back**: both cells are out, `track_used` is 1, and no request
returns. -/
theorem request_hangs :
    let a := (run Ports.step (.start (.create 10 10 ⟨true, true, false, false⟩ false fun _ => 1))
      [.request [⟨0, false, false⟩], .request [⟨1, false, false⟩], .free 14]).allocator
    a.trackUsed < a.trackLen ∧ ∀ attempts, a.requestPort attempts = none :=
  ⟨by decide, fun attempts => requestPort_out (by decide) (by decide) attempts⟩

end FreeSwitch
