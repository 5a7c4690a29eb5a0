/-
**Who holds which port.**

A port that is returned belongs to the caller until it is given back. The table of the allocator has
a cell for each of its ports, and a port is found back by its number; both need that different cells
stand for different ports.

* **`ports_exclusive_iff`**: the ranges for which no port is held twice;
* **`frees_exactly_iff`**: when giving a port back frees it, and nothing else.
-/

import FreeSwitch.Port.Allocator

namespace FreeSwitch

open Function List Option PortAllocator PortFlags Ports Run Unsigned

open Tally (tally tally_congr tally_le tally_eq_zero tally_mark tally_unmark)

/-! ### What the calls do to the cells that are out -/

theorem Walked.positive {trackLen : Nat} {track : Nat → Int} {result : (Nat → Int) × Option Nat}
    (walked : Walked trackLen track result) (i : Nat) : 0 < result.1 i ↔ 0 < track i := by
  constructor
  · intro out
    by_contra low
    have := walked.back i (by omega)
    omega
  · intro out
    rw [walked.out i out]
    exact out

namespace PortAllocator

/-- **What a request comes to**: no cell goes out, or one that was not does, and its port is
returned. -/
inductive Requested (a after : PortAllocator) : Option Nat → Prop
  | nothing (same : ∀ i, 0 < after.track i ↔ 0 < a.track i) (used : after.trackUsed = a.trackUsed) :
      Requested a after none
  | one {i : Nat} (inside : i < a.trackLen) (before : ¬ 0 < a.track i)
      (cells : ∀ j, 0 < after.track j ↔ j = i ∨ 0 < a.track j) (room : a.trackUsed < a.trackLen)
      (used : after.trackUsed = add 32 a.trackUsed 1) :
      Requested a after (some (a.portAt i))

variable {a after : PortAllocator}

theorem Tried.requested {port : Option Nat} (room : a.trackUsed < a.trackLen)
    (tried : Tried a (after, port)) : Requested a after port := by
  cases tried with
  | missed walked => exact .nothing walked.positive rfl
  | @failed track index walked =>
    obtain ⟨-, zero⟩ := walked.found index rfl
    refine .nothing (fun i => ?_) rfl
    rw [← walked.positive i]
    by_cases same : i = index
    · subst same
      dsimp only at zero ⊢
      rw [update_self, zero]
      decide
    · dsimp only
      rw [update_of_ne same]
  | @returned track index walked =>
    obtain ⟨inside, zero⟩ := walked.found index rfl
    refine .one inside ?_ (fun j => ?_) room rfl
    · rw [← walked.positive index, zero]
      decide
    · rw [← walked.positive j]
      by_cases same : j = index
      · subst same
        dsimp only
        rw [update_self]
        exact iff_of_true (by decide) (.inl rfl)
      · dsimp only
        rw [update_of_ne same]
        exact ⟨.inr, fun either => either.resolve_left same⟩

theorem requestPort_requested {attempts : List Attempt} {port : Option Nat}
    (returns : a.requestPort attempts = some (after, port)) :
    Requested a after port := by
  -- the passes that find nothing leave the cells that are out, and the count
  let Same (b : PortAllocator) : Prop :=
    Alike a b ∧ (∀ i, 0 < b.track i ↔ 0 < a.track i) ∧ b.trackUsed = a.trackUsed
  have keeps : ∀ b, Same b → b.trackUsed < b.trackLen → ∀ c, Tried b (c, none) → Same c := by
    rintro b ⟨alike, cells, used⟩ room c tried
    cases tried.requested room with
    | nothing same still =>
      exact ⟨alike.trans tried.alike, fun i => (same i).trans (cells i), still.trans used⟩
  rcases requestPort_cases keeps ⟨.refl a, fun _ => Iff.rfl, rfl⟩ returns with
    ⟨rfl, -, cells, used⟩ | ⟨last, ⟨alike, cells, used⟩, room, tried, -⟩
  · exact .nothing cells used
  · cases tried.requested room with
    | nothing same still => exact .nothing (fun i => (same i).trans (cells i)) (still.trans used)
    | one inside before out room still =>
      rw [alike.portAt]
      rw [alike.trackLen] at inside room
      rw [cells] at before
      rw [used] at room still
      refine .one inside before (fun j => ?_) room still
      rw [out, cells]

/-- **What giving back comes to**: nothing, or one cell that was out starts to cool down. -/
inductive Freed (a : PortAllocator) (port : Nat) : PortAllocator × Bool → Prop
  | refused (idle : ∀ i ∈ a.freeIndex port, ¬ 0 < a.track i) : Freed a port (a, false)
  | done {i : Nat} (index : a.freeIndex port = some i) (out : 0 < a.track i) :
      Freed a port ({ a with
        track := update a.track i (-4)
        trackUsed := sub 32 a.trackUsed 1 }, true)

theorem freePort_freed (a : PortAllocator) (port : Nat) : Freed a port (a.freePort port) := by
  unfold freePort
  split
  next none => exact .refused (by rw [none]; nofun)
  next i index =>
    split
    next out => exact .done index out
    next low => exact .refused (by rw [index]; rintro j ⟨⟩; exact low)

theorem Alike.freeIndex (alike : Alike a after) :
    after.freeIndex = a.freeIndex := by
  funext port
  unfold PortAllocator.freeIndex
  rw [alike.start, alike.flags]

end PortAllocator

/-! ### Exclusive ports -/

/-- No port is held twice, and `track_used` is the number of cells that are out. -/
structure Ports.Exclusive (p : Ports) : Prop where
  nodup : p.held.Nodup
  count : p.allocator.trackUsed = tally (0 < ·) p.allocator.track p.allocator.trackLen

def Ports.Proper (p : Ports) : PortOp → Prop
  | .request _ => True
  | .free port => port ∈ p.held

/-- Different cells stand for different ports, and no port given back is taken for another. -/
structure PortAllocator.Separated (a : PortAllocator) : Prop where
  small : a.trackLen < 2 ^ 32
  injective : ∀ i < a.trackLen, ∀ j < a.trackLen, a.portAt i = a.portAt j → i = j
  returns : ∀ i < a.trackLen, ∀ j ∈ a.freeIndex (a.portAt i), j = i

variable {a : PortAllocator}

theorem PortAllocator.Separated.of_alike {after : PortAllocator} (separated : a.Separated)
    (alike : Alike a after) : after.Separated := by
  obtain ⟨small, injective, returns⟩ := separated
  refine ⟨?_, ?_, ?_⟩
  · rw [alike.trackLen]
    exact small
  · rw [alike.trackLen, alike.portAt]
    exact injective
  · rw [alike.trackLen, alike.portAt, alike.freeIndex]
    exact returns

structure ExclusiveInv (p : Ports) : Prop extends p.Exclusive where
  separated : p.allocator.Separated
  cells : ∀ port ∈ p.held, ∃ i < p.allocator.trackLen,
    0 < p.allocator.track i ∧ p.allocator.portAt i = port

theorem ExclusiveInv.request {p : Ports} (inv : ExclusiveInv p) (attempts : List Attempt) :
    ExclusiveInv (p.step (.request attempts)) := by
  rw [step]
  split
  next after port returns =>
    have alike := requestPort_alike returns
    cases requestPort_requested returns with
    | @one i inside before cells room used =>
      refine ⟨⟨nodup_cons.mpr ⟨fun member => ?_, inv.nodup⟩, ?_⟩,
        inv.separated.of_alike alike, fun port member => ?_⟩
      · -- the cell of a port that is held is out, and the cell that is found is not
        obtain ⟨j, bound, out, same⟩ := inv.cells _ member
        rw [inv.separated.injective j bound i inside same] at out
        exact before out
      · have same : tally (0 < ·) after.track p.allocator.trackLen =
            tally (0 < ·) (update p.allocator.track i 1) p.allocator.trackLen := by
          refine tally_congr _ fun j _ => ?_
          rw [cells]
          by_cases equal : j = i
          · subst equal
            rw [update_self]
            exact iff_of_true (.inl rfl) (by decide)
          · rw [update_of_ne equal]
            exact ⟨fun either => either.resolve_left equal, .inr⟩
        have small := inv.separated.small
        rw [alike.trackLen, used, same, tally_mark _ inside before (by decide), ← inv.count]
        exact add_of_lt (by omega)
      · rw [alike.trackLen, alike.portAt]
        rcases mem_cons.mp member with rfl | earlier
        · exact ⟨i, inside, (cells i).mpr (.inl rfl), rfl⟩
        · obtain ⟨j, bound, out, same⟩ := inv.cells port earlier
          exact ⟨j, bound, (cells j).mpr (.inr out), same⟩
  next after returns =>
    have alike := requestPort_alike returns
    cases requestPort_requested returns with
    | nothing same used =>
      refine ⟨⟨inv.nodup, ?_⟩, inv.separated.of_alike alike, fun port member => ?_⟩
      · rw [used, alike.trackLen, inv.count]
        exact tally_congr _ fun i _ => (same i).symm
      · obtain ⟨j, bound, out, equal⟩ := inv.cells port member
        rw [alike.trackLen, alike.portAt]
        exact ⟨j, bound, (same j).mpr out, equal⟩
  next => exact inv

theorem ExclusiveInv.free {p : Ports} (inv : ExclusiveInv p) {port : Nat} (held : port ∈ p.held) :
    ExclusiveInv (p.step (.free port)) := by
  obtain ⟨i, inside, -, same⟩ := inv.cells port held
  rw [step]
  have freed := p.allocator.freePort_freed port
  generalize p.allocator.freePort port = out at freed
  cases freed with
  | refused =>
    refine ⟨⟨inv.nodup.erase port, inv.count⟩, inv.separated, fun other member => ?_⟩
    exact inv.cells other (mem_of_mem_erase member)
  | @done j index out =>
    obtain rfl : j = i := inv.separated.returns i inside j (by rw [same]; exact index)
    refine ⟨⟨inv.nodup.erase port, ?_⟩, inv.separated.of_alike ⟨rfl, rfl, rfl⟩,
      fun other member => ?_⟩
    · have fewer : tally (0 < ·) (update p.allocator.track j (-4)) p.allocator.trackLen +
          1 = p.allocator.trackUsed := by
        rw [inv.count]
        exact tally_unmark _ inside out (by decide)
      have bound := tally_le (0 < ·) p.allocator.track p.allocator.trackLen
      have small := inv.separated.small
      rw [← inv.count] at bound
      dsimp only
      rw [sub_of_le (by omega) (by omega)]
      omega
    · obtain ⟨different, earlier⟩ := inv.nodup.mem_erase_iff.mp member
      obtain ⟨k, bound, busy, equal⟩ := inv.cells other earlier
      refine ⟨k, bound, ?_, equal⟩
      have apart : k ≠ j := by
        rintro rfl
        exact different (equal.symm.trans same)
      dsimp only
      rw [update_of_ne apart]
      exact busy

theorem ExclusiveInv.step (p : Ports) (op : PortOp) (inv : ExclusiveInv p) (proper : p.Proper op) :
    ExclusiveInv (p.step op) := by
  cases op with
  | request attempts => exact inv.request attempts
  | free port => exact inv.free proper

theorem exclusive_of_separated (zeroed : ∀ i < a.trackLen, a.track i = 0) (unused : a.trackUsed = 0)
    (separated : a.Separated) {ops : List PortOp}
    (proper : Along step Proper (.start a) ops) :
    (run step (.start a) ops).Exclusive := by
  have none : tally (0 < ·) a.track a.trackLen = 0 := by
    refine tally_eq_zero _ fun i inside => ?_
    rw [zeroed i inside]
    decide
  have first : ExclusiveInv (.start a) :=
    ⟨⟨nodup_nil, unused.trans none.symm⟩, separated, fun _ member =>
      absurd member not_mem_nil⟩
  exact (run_keeps ExclusiveInv.step first proper).toExclusive

theorem step_first {i : Nat} (held issued : List Nat) (inside : i < a.trackLen)
    (free : a.track i = 0) (room : a.trackUsed < a.trackLen) :
    step ⟨a, held, issued⟩ (.request [⟨i, true, true⟩]) =
      ⟨{ a with
        track := update a.track i 1
        trackUsed := add 32 a.trackUsed 1 }, a.portAt i :: held, a.portAt i :: issued⟩ := by
  rw [step]
  rw [requestPort_first inside free room]

theorem twice_held (zeroed : ∀ i < a.trackLen, a.track i = 0) (unused : a.trackUsed = 0) {i : Nat}
    (positive : 0 < i) (inside : i < a.trackLen) (same : a.portAt i = a.portAt 0) :
    ∃ ops, Along Ports.step Ports.Proper (.start a) ops ∧
      ¬ (run Ports.step (.start a) ops).held.Nodup := by
  refine ⟨[.request [⟨0, true, true⟩], .request [⟨i, true, true⟩]], ⟨trivial, trivial, trivial⟩, ?_⟩
  let after : PortAllocator := { a with
    track := update a.track 0 1
    trackUsed := add 32 a.trackUsed 1 }
  have still : after.track i = 0 := by
    change update a.track 0 1 i = 0
    rw [update_of_ne positive.ne']
    exact zeroed i inside
  have room : after.trackUsed < after.trackLen := by
    change add 32 a.trackUsed 1 < a.trackLen
    rw [unused]
    exact lt_of_le_of_lt positive inside
  have second := step_first (a := after) [a.portAt 0] [a.portAt 0] inside still room
  rw [run_cons, run_cons, run_nil, Ports.start,
    step_first [] [] (by omega) (zeroed 0 (by omega)) (by omega), second]
  intro nodup
  exact (nodup_cons.mp nodup).1 (mem_singleton.mpr same)

def PortFlags.ports (flags : PortFlags) : Nat := if flags.both then 2 ^ 16 else 2 ^ 15

section Even

variable {start last : Nat} {flags : PortFlags} {robust : Bool} {outside : Nat → Int}

theorem create_separated (even : flags.even = true) (startSmall : start < 2 ^ 16)
    (fits : (create start last flags robust outside).trackLen ≤ flags.ports) :
    (create start last flags robust outside).Separated := by
  unfold ports at fits
  by_cases both : flags.both = true
  · rw [if_pos both] at fits
    refine ⟨by omega, fun i inside j bound same => ?_, fun i inside j index => ?_⟩
    · rw [create_portAt, create_portAt, if_pos both, if_pos both] at same
      omega
    · rw [create_portAt, create_freeIndex, if_pos both, if_pos both, roundStart_both both] at index
      split at index
      · cases index
      · obtain rfl := some.inj index
        omega
  · have first := roundStart_even even both startSmall
    have parity : roundStart flags start % 2 = 0 ∧ roundStart flags start < 2 ^ 16 := by
      rw [first]
      split <;> omega
    rw [if_neg both] at fits
    refine ⟨by omega, fun i inside j bound same => ?_, fun i inside j index => ?_⟩
    · rw [create_portAt, create_portAt, if_neg both, if_neg both] at same
      omega
    · rw [create_portAt, create_freeIndex, if_neg both, if_neg both] at index
      split at index
      · cases index
      · obtain rfl := some.inj index
        omega

theorem create_portAt_ports :
    (create start last flags robust outside).portAt flags.ports =
      (create start last flags robust outside).portAt 0 := by
  unfold ports
  rw [create_portAt, create_portAt]
  by_cases both : flags.both = true
  · rw [if_pos both, if_pos both, if_pos both]
    omega
  · rw [if_neg both, if_neg both, if_neg both]
    omega

/-- The table is not longer than the numbers there are: the range is not reversed, and with both
parities there is a number for the cell behind the last port. -/
def ExclusiveRange (flags : PortFlags) (start last : Nat) : Prop :=
  if flags.odd then start ≤ last + 2 ∧ ¬ (start = 0 ∧ last = 65535)
  else start = 65535 ∨ start + start % 2 + last % 2 ≤ last + 2

theorem exclusiveRange_iff (even : flags.even = true) (startSmall : start < 2 ^ 16)
    (lastSmall : last < 2 ^ 16) :
    ExclusiveRange flags start last ↔
      (create start last flags robust outside).trackLen ≤ flags.ports := by
  have bothIff : flags.both = true ↔ flags.odd = true := by rw [both, even, Bool.true_and]
  unfold ExclusiveRange ports
  by_cases both : flags.both = true
  · rw [if_pos (bothIff.mp both), if_pos both]
    by_cases order : start ≤ last + 2
    · rw [create_trackLen (by rw [roundStart_both both, roundEnd_both both]; exact order)
        (by rw [roundEnd_both both]; exact lastSmall), if_pos both, roundStart_both both,
        roundEnd_both both]
      omega
    · have long : 2 ^ 30 < trackLenOf flags (roundStart flags start) (roundEnd flags last) := by
        rw [roundStart_both both, roundEnd_both both]
        exact trackLenOf_of_lt (by omega) startSmall
      exact iff_of_false (fun kept => order kept.1) (fun short => by
        change trackLenOf flags (roundStart flags start) (roundEnd flags last) ≤ _ at short
        omega)
  · rw [if_neg (fun odd => both (bothIff.mpr odd)), if_neg both]
    have first := roundStart_even even both startSmall
    have final := roundEnd_even even both lastSmall
    by_cases order : roundStart flags start ≤ roundEnd flags last + 2
    · rw [create_trackLen order (by omega), if_neg both]
      refine iff_of_true ?_ (by omega)
      rw [first, final] at order
      split at order <;> omega
    · have long : 2 ^ 30 < trackLenOf flags (roundStart flags start) (roundEnd flags last) :=
        trackLenOf_of_lt (by omega) (by rw [first]; split <;> omega)
      refine iff_of_false ?_ (fun short => ?_)
      · rw [first, final] at order
        split at order <;> omega
      · change trackLenOf flags (roundStart flags start) (roundEnd flags last) ≤ _ at short
        omega

end Even

/-- **Exclusive ports**: an allocator made with `SPF_EVEN` never has a port out twice, and always
counts what is out, exactly for the ranges of `ExclusiveRange`. -/
theorem ports_exclusive_iff (start last : Nat) (flags : PortFlags) (robust : Bool)
    (outside : Nat → Int) (even : flags.even = true) (startSmall : start < 2 ^ 16)
    (lastSmall : last < 2 ^ 16) :
    (∀ ops, Along step Proper
        (.start (create start last flags robust outside)) ops →
      (run step (.start (create start last flags robust outside))
        ops).Exclusive) ↔ ExclusiveRange flags start last := by
  have zeroed := create_zeroed start last flags robust outside
  rw [exclusiveRange_iff even startSmall lastSmall]
  constructor
  · intro all
    by_contra long
    have positive : 0 < flags.ports := by
      unfold ports
      split <;> decide
    obtain ⟨ops, proper, twice⟩ := twice_held zeroed rfl positive (not_le.mp long)
      create_portAt_ports
    exact twice (all ops proper).nodup
  · intro fits ops proper
    exact exclusive_of_separated zeroed rfl (create_separated even startSmall fits) proper

/-- The range of the RTP ports with its default values. -/
theorem ports_exclusive_rtp :
    ExclusiveRange ⟨false, true, false, false⟩ 16384 32768 ∧
      ∀ ops, Along step Proper (.start (create 16384 32768
          ⟨false, true, false, false⟩ true (fun _ => 0))) ops →
        (run step (.start (create 16384 32768
          ⟨false, true, false, false⟩ true (fun _ => 0))) ops).Exclusive := by
  have range : ExclusiveRange ⟨false, true, false, false⟩ 16384 32768 := .inr (by decide)
  exact ⟨range, (ports_exclusive_iff 16384 32768 ⟨false, true, false, false⟩ true (fun _ => 0) rfl
    (by decide) (by decide)).mpr range⟩

/-- Ports of both parities from 0 to 65535: the cell behind the last port stands for port 0 again,
and two callers get it. Even ports from 20000 to 10000: of the billions of cells, every 32768th
stands for port 20000. -/
theorem port_held_twice :
    (run step (.start (create 0 65535
        ⟨true, true, false, false⟩ false (fun _ => 0)))
      [.request [⟨0, true, true⟩], .request [⟨65536, true, true⟩]]).held = [0, 0] ∧
    (run step (.start (create 20000 10000
        ⟨false, true, false, false⟩ false (fun _ => 0)))
      [.request [⟨0, true, true⟩], .request [⟨32768, true, true⟩]]).held = [20000, 20000] := by
  decide +kernel

/-! ### Giving a port back -/

def PortAllocator.Outstanding (a : PortAllocator) (port : Nat) : Prop :=
  ∃ i < a.trackLen, 0 < a.track i ∧ a.portAt i = port

/-- `switch_core_port_allocator_free_port` stays in the table, succeeds exactly for a port that is
out, and gives back this one alone. -/
structure FreesExactly (a : PortAllocator) (port : Nat) : Prop where
  inside : ∀ i ∈ a.freeIndex port, i < a.trackLen
  success : (a.freePort port).2 = true ↔ a.Outstanding port
  only : (a.freePort port).2 = true →
    ∀ other, (a.freePort port).1.Outstanding other ↔ a.Outstanding other ∧ other ≠ port

def PortAllocator.CellOf (a : PortAllocator) (port index : Nat) : Prop :=
  if a.flags.both then port = a.start + index
  else port = a.start + 2 * index ∨ port = a.start + 2 * index + 1

/-- A port below the start is that of no cell; any other has one cell, as far behind the first as
the port is behind the start. -/
def PortAllocator.FindsCell (a : PortAllocator) (port : Nat) : Prop :=
  if port < a.start then ∀ i < a.trackLen, a.portAt i ≠ port
  else ∃ index < a.trackLen, a.CellOf port index ∧
    ∀ i < a.trackLen, a.portAt i = port ↔ i = index

section Free

variable {a : PortAllocator} {port : Nat}

theorem freeIndex_eq_none_iff : a.freeIndex port = none ↔ port < a.start := by
  unfold freeIndex
  split
  next low => exact iff_of_true rfl low
  next high =>
    refine iff_of_false ?_ high
    split <;> nofun

theorem freeIndex_eq_some_iff {index : Nat} (high : ¬ port < a.start) :
    a.freeIndex port = some index ↔ a.CellOf port index := by
  unfold freeIndex CellOf
  rw [if_neg high]
  split
  · rw [some_inj]
    omega
  · rw [some_inj]
    omega

theorem freePort_success :
    (a.freePort port).2 = true ↔ ∃ i ∈ a.freeIndex port, 0 < a.track i := by
  have freed := a.freePort_freed port
  generalize a.freePort port = out at freed
  cases freed with
  | refused idle =>
    refine iff_of_false nofun ?_
    rintro ⟨i, index, out⟩
    exact idle i index out
  | done index out => exact iff_of_true rfl ⟨_, index, out⟩

theorem freePort_outstanding {index : Nat} (found : a.freeIndex port = some index)
    (out : 0 < a.track index) (other : Nat) :
    (a.freePort port).1.Outstanding other ↔
      ∃ i < a.trackLen, i ≠ index ∧ 0 < a.track i ∧ a.portAt i = other := by
  have after : (a.freePort port).1 = { a with
      track := update a.track index (-4)
      trackUsed := sub 32 a.trackUsed 1 } := by
    unfold freePort
    rw [found]
    dsimp only
    rw [if_pos out]
  have cell : ∀ i, 0 < update a.track index (-4) i ↔ i ≠ index ∧ 0 < a.track i := by
    intro i
    by_cases same : i = index
    · subst same
      rw [update_self]
      exact iff_of_false (by decide) (fun both => both.1 rfl)
    · rw [update_of_ne same]
      exact ⟨fun busy => ⟨same, busy⟩, And.right⟩
  rw [after]
  unfold Outstanding
  simp only [cell, and_assoc]
  rfl

theorem freesExactly_of_findsCell (finds : a.FindsCell port) : FreesExactly a port := by
  unfold FindsCell at finds
  split at finds
  next low =>
    have none := freeIndex_eq_none_iff.mpr low
    have fails : ¬ (a.freePort port).2 = true := by
      rw [freePort_success, none]
      nofun
    refine ⟨by rw [none]; nofun, iff_of_false fails ?_, fun success => absurd success fails⟩
    rintro ⟨i, inside, -, same⟩
    exact finds i inside same
  next high =>
    obtain ⟨index, inside, cell, only⟩ := finds
    have found := (freeIndex_eq_some_iff high).mpr cell
    refine ⟨?_, ?_, fun success other => ?_⟩
    · rw [found]
      rintro i ⟨⟩
      exact inside
    · rw [freePort_success, found]
      constructor
      · rintro ⟨i, ⟨⟩, out⟩
        exact ⟨index, inside, out, (only index inside).mpr rfl⟩
      · rintro ⟨i, bound, out, same⟩
        obtain rfl := (only i bound).mp same
        exact ⟨i, rfl, out⟩
    · obtain ⟨i, member, out⟩ := freePort_success.mp success
      rw [found] at member
      cases member
      rw [freePort_outstanding found out]
      constructor
      · rintro ⟨i, bound, apart, busy, rfl⟩
        exact ⟨⟨i, bound, busy, rfl⟩, fun same => apart ((only i bound).mp same)⟩
      · rintro ⟨⟨i, bound, busy, rfl⟩, different⟩
        refine ⟨i, bound, ?_, busy, rfl⟩
        rintro rfl
        exact different ((only i bound).mpr rfl)

theorem PortAllocator.FindsCell.of_alike {after : PortAllocator} (finds : a.FindsCell port)
    (alike : Alike a after) : after.FindsCell port := by
  unfold FindsCell CellOf at finds ⊢
  rw [alike.start, alike.flags, alike.trackLen, alike.portAt]
  exact finds

theorem only_first {i : Nat} (zeroed : ∀ i < a.trackLen, a.track i = 0) (inside : i < a.trackLen)
    (unused : a.trackUsed = 0) :
    ∃ ops, Alike a (run Ports.step (.start a) ops).allocator ∧
      ∀ j < a.trackLen, 0 < (run Ports.step (.start a) ops).allocator.track j ↔ j = i := by
  refine ⟨[.request [⟨i, true, true⟩]], ?_⟩
  rw [run_cons, run_nil, Ports.start, step_first [] [] inside (zeroed i inside) (by omega)]
  refine ⟨⟨rfl, rfl, rfl⟩, fun j bound => ?_⟩
  dsimp only
  by_cases same : j = i
  · subst same
    rw [update_self]
    exact iff_of_true (by decide) rfl
  · rw [update_of_ne same, zeroed j bound]
    exact iff_of_false (by decide) same

theorem findsCell_of_freesExactly (zeroed : ∀ i < a.trackLen, a.track i = 0)
    (unused : a.trackUsed = 0)
    (all : ∀ ops, FreesExactly (run step (.start a) ops).allocator port) :
    a.FindsCell port := by
  -- with cell `i` alone out, a success means that `i` was looked at, and that the port is its port
  have lone : ∀ i < a.trackLen, a.portAt i = port ↔ a.freeIndex port = some i := by
    intro i inside
    obtain ⟨ops, alike, cells⟩ := only_first zeroed inside unused
    have exact_ := all ops
    have found : ∀ j ∈ a.freeIndex port, j < a.trackLen := (all []).inside
    have success := exact_.success
    rw [freePort_success, alike.freeIndex] at success
    unfold Outstanding at success
    rw [alike.trackLen, alike.portAt] at success
    constructor
    · intro same
      obtain ⟨j, index, out⟩ := success.mpr ⟨i, inside, (cells i inside).mpr rfl, same⟩
      rw [← (cells j (found j index)).mp out]
      exact index
    · intro index
      obtain ⟨j, bound, out, same⟩ := success.mp ⟨i, index, (cells i inside).mpr rfl⟩
      rw [← (cells j bound).mp out]
      exact same
  unfold FindsCell
  split
  next low =>
    intro i inside same
    rw [lone i inside, freeIndex_eq_none_iff.mpr low] at same
    cases same
  next high =>
    obtain ⟨index, found⟩ := ne_none_iff_exists'.mp (mt freeIndex_eq_none_iff.mp high)
    refine ⟨index, (all []).inside index found, (freeIndex_eq_some_iff high).mp found,
      fun i inside => ?_⟩
    rw [lone i inside, found, some_inj]
    exact eq_comm

end Free

/-- **Giving a port back**: in all states of an allocator the call with this port stays inside the
table, succeeds exactly for a port that is out and gives back this port alone, exactly when the cell
that is computed from the port is its cell. -/
theorem frees_exactly_iff (start last : Nat) (flags : PortFlags) (robust : Bool)
    (outside : Nat → Int) (port : Nat) :
    (∀ ops, FreesExactly (run step
        (.start (create start last flags robust outside)) ops).allocator port) ↔
      (create start last flags robust outside).FindsCell port := by
  constructor
  · intro all
    exact findsCell_of_freesExactly (create_zeroed start last flags robust outside) rfl all
  · intro finds ops
    exact freesExactly_of_findsCell (finds.of_alike (run_issued _ ops).alike)

/-- Even ports from 10 to 20, with port 10 out: giving back port 11 succeeds and releases port 10,
and giving back port 22 looks behind the six cells of the table. -/
theorem port_eleven_frees_ten :
    let p := run step (.start (create 10 20
      ⟨false, true, false, false⟩ false (fun _ => 0))) [.request [⟨0, true, true⟩]]
    p.held = [10] ∧ (p.allocator.freePort 11).2 = true ∧
      (p.allocator.freePort 11).1.trackUsed = 0 ∧ p.allocator.trackLen = 6 ∧
      p.allocator.freeIndex 22 = some 6 := by
  decide

end FreeSwitch
