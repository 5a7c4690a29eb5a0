/-
**The allocator of ports, from `switch_core_port_allocator.c`.**

An allocator keeps one cell for each of its ports: 1 while the port is out, a negative number while
it cools down after its return, and 0 when it can be given out. A request picks a cell at random and
walks on from there until it finds a cell that is 0; the cells it passes cool down by one.

* `PortAllocator.create`, `requestPort`, `freePort`: the functions; the random picks and what
  `test_port` says come with each request.
-/

import FreeSwitch.Lib.Run
import FreeSwitch.Lib.Tally
import FreeSwitch.Lib.Unsigned

namespace FreeSwitch

open Function Unsigned

/-! ### The allocator -/

/-- `switch_port_flag_t`. -/
structure PortFlags where
  odd : Bool
  even : Bool
  robustTcp : Bool
  robustUdp : Bool
  deriving DecidableEq, Repr

/-- `even && odd`: the ports of both parities. -/
def PortFlags.both (flags : PortFlags) : Bool := flags.even && flags.odd

/-- `switch_core_port_allocator_t`. `track` is the memory from there on: behind the table it belongs
to others. -/
structure PortAllocator where
  start : Nat
  track : Nat → Int
  trackLen : Nat
  trackUsed : Nat
  flags : PortFlags

/-- The first port, rounded up to the parity; a `switch_port_t` has 16 bits. -/
def roundStart (flags : PortFlags) (start : Nat) : Nat :=
  if flags.both then start
  else if flags.even then if start % 2 ≠ 0 then add 16 start 1 else start
  else if flags.odd then if start % 2 = 0 then add 16 start 1 else start
  else start

def roundEnd (flags : PortFlags) (last : Nat) : Nat :=
  if flags.both then last
  else if flags.even then if last % 2 ≠ 0 then sub 16 last 1 else last
  else if flags.odd then if last % 2 = 0 then sub 16 last 1 else last
  else last

/-- `track_len`: a difference of `int`s, stored in 32 bits without a sign. -/
def trackLenOf (flags : PortFlags) (start last : Nat) : Nat :=
  let trackLen := (((last : Int) - start + 2) % 2 ^ 32).toNat
  if flags.both then trackLen else trackLen / 2

variable (a : PortAllocator)

namespace PortAllocator

/-- `switch_core_port_allocator_new`: two cells more than the table has are allocated and zeroed.
The configuration adds `robust` to the flags. -/
def create (start last : Nat) (flags : PortFlags) (robust : Bool) (outside : Nat → Int) :
    PortAllocator :=
  let first := roundStart flags start
  let trackLen := trackLenOf flags first (roundEnd flags last)
  { start := first
    track := fun i => if i < trackLen + 2 then 0 else outside i
    trackLen := trackLen
    trackUsed := 0
    flags := { flags with robustUdp := flags.robustUdp || robust } }

def portAt (index : Nat) : Nat :=
  if a.flags.both then (index + a.start) % 2 ^ 16
  else (index + a.start / 2) % 2 ^ 16 * 2 % 2 ^ 16

end PortAllocator

/-- The inner loop of a request, with `fuel` tries left: the cells after it, and the one found. -/
def walk (trackLen : Nat) : Nat → (Nat → Int) → Nat → (Nat → Int) × Option Nat
  | 0, track, _ => (track, none)
  | fuel + 1, track, index =>
    if track index = 0 then (track, some index)
    else
      walk trackLen fuel
        (if track index < 0 then update track index (track index + 1) else track)
        (if trackLen ≤ index + 1 then 0 else index + 1)

/-- One pass of the outer loop: what `arc4random_uniform` picks, and what `test_port` says. -/
structure Attempt where
  pick : Nat
  udp : Bool
  tcp : Bool

namespace PortAllocator

def passes (attempt : Attempt) : Bool :=
  if a.flags.robustTcp then attempt.tcp else if a.flags.robustUdp then attempt.udp else true

def tryPort (attempt : Attempt) : PortAllocator × Option Nat :=
  match walk a.trackLen a.trackLen a.track (attempt.pick % a.trackLen) with
  | (track, none) => ({ a with track := track }, none)
  | (track, some index) =>
    if a.passes attempt then
      ({ a with
        track := update track index 1
        trackUsed := add 32 a.trackUsed 1 }, some (a.portAt index))
    else ({ a with track := update track index (-4) }, none)

/-- `switch_core_port_allocator_request_port`: a port, or none; nothing while it has not returned.
-/
def requestPort (a : PortAllocator) : List Attempt → Option (PortAllocator × Option Nat)
  | [] => if a.trackUsed < a.trackLen then none else some (a, none)
  | attempt :: attempts =>
    if a.trackUsed < a.trackLen then
      match a.tryPort attempt with
      | (a, some port) => some (a, some port)
      | (a, none) => a.requestPort attempts
    else some (a, none)

/-- The cell that `switch_core_port_allocator_free_port` looks at. -/
def freeIndex (port : Nat) : Option Nat :=
  if port < a.start then none
  else if a.flags.both then some (port - a.start) else some ((port - a.start) / 2)

/-- `switch_core_port_allocator_free_port`: whether it returns `SWITCH_STATUS_SUCCESS`. -/
def freePort (port : Nat) : PortAllocator × Bool :=
  match a.freeIndex port with
  | none => (a, false)
  | some index =>
    if 0 < a.track index then
      ({ a with
        track := update a.track index (-4)
        trackUsed := sub 32 a.trackUsed 1 }, true)
    else (a, false)

end PortAllocator

/-! ### Walks -/

open PortAllocator

/-- **What a walk does**: cells that are out stay so, others do not come out, and the one found is
0. -/
structure Walked (trackLen : Nat) (track : Nat → Int) (result : (Nat → Int) × Option Nat) :
    Prop where
  out : ∀ i, 0 < track i → result.1 i = track i
  back : ∀ i, track i ≤ 0 → result.1 i ≤ 0
  found : ∀ i ∈ result.2, i < trackLen ∧ result.1 i = 0

theorem walk_spec {trackLen : Nat} (fuel : Nat) (track : Nat → Int) {index : Nat}
    (inside : index < trackLen) : Walked trackLen track (walk trackLen fuel track index) := by
  induction fuel generalizing track index with
  | zero => exact ⟨fun _ _ => rfl, fun _ low => low, nofun⟩
  | succ fuel ih =>
    rw [walk]
    split
    next free =>
      refine ⟨fun _ _ => rfl, fun _ low => low, ?_⟩
      rintro i ⟨⟩
      exact ⟨inside, free⟩
    next busy =>
      have further : (if trackLen ≤ index + 1 then 0 else index + 1) < trackLen := by
        split <;> omega
      split
      next cooling =>
        -- the cell is below zero, and stays at most zero
        have rest := ih (update track index (track index + 1)) further
        have cell : ∀ i, 0 < track i →
            update track index (track index + 1) i = track i := by
          intro i out
          exact update_of_ne (fun same => by rw [same] at out; omega) _ _
        refine ⟨fun i out => ?_, fun i low => rest.back i ?_, rest.found⟩
        · rw [rest.out i (by rw [cell i out]; exact out), cell i out]
        · by_cases same : i = index
          · subst same
            rw [update_self]
            omega
          · rw [update_of_ne same]
            exact low
      next => exact ih track further

theorem walk_free {trackLen fuel : Nat} {track : Nat → Int} {index : Nat} (free : track index = 0) :
    walk trackLen (fuel + 1) track index = (track, some index) := by
  rw [walk, if_pos free]

/-! ### Runs -/

inductive PortOp
  | request (attempts : List Attempt)
  | free (port : Nat)

/-- An allocator, the ports out, and all that were ever returned. -/
structure Ports where
  allocator : PortAllocator
  held : List Nat
  issued : List Nat

def Ports.step (p : Ports) : PortOp → Ports
  | .request attempts =>
    match p.allocator.requestPort attempts with
    | some (a, some port) => ⟨a, port :: p.held, port :: p.issued⟩
    | some (a, none) => { p with allocator := a }
    | none => p
  | .free port => { p with
      allocator := (p.allocator.freePort port).1
      held := p.held.erase port }

def Ports.start (a : PortAllocator) : Ports := ⟨a, [], []⟩

namespace PortAllocator

structure Alike (a after : PortAllocator) : Prop where
  start : after.start = a.start
  trackLen : after.trackLen = a.trackLen
  flags : after.flags = a.flags

theorem Alike.refl : Alike a a := ⟨rfl, rfl, rfl⟩

variable {a : PortAllocator}

theorem Alike.trans {b c : PortAllocator} (first : Alike a b) (second : Alike b c) : Alike a c :=
  ⟨second.start.trans first.start, second.trackLen.trans first.trackLen,
    second.flags.trans first.flags⟩

theorem Alike.portAt {after : PortAllocator} (alike : Alike a after) :
    after.portAt = a.portAt := by
  funext index
  unfold PortAllocator.portAt
  rw [alike.flags, alike.start]

/-- One pass of the outer loop: cells that are not out may change, and a port is returned, its cell
starts to cool down, or none was found. -/
inductive Tried (a : PortAllocator) : PortAllocator × Option Nat → Prop
  | returned {track : Nat → Int} {index : Nat}
      (walked : Walked a.trackLen a.track (track, some index)) :
      Tried a ({ a with
        track := update track index 1
        trackUsed := add 32 a.trackUsed 1 }, some (a.portAt index))
  | failed {track : Nat → Int} {index : Nat}
      (walked : Walked a.trackLen a.track (track, some index)) :
      Tried a ({ a with track := update track index (-4) }, none)
  | missed {track : Nat → Int} (walked : Walked a.trackLen a.track (track, none)) :
      Tried a ({ a with track := track }, none)

theorem tryPort_tried (some_ : 0 < a.trackLen) (attempt : Attempt) :
    Tried a (a.tryPort attempt) := by
  have walked := walk_spec a.trackLen a.track (Nat.mod_lt attempt.pick some_)
  unfold tryPort
  split
  next track result =>
    rw [result] at walked
    exact .missed walked
  next track index result =>
    rw [result] at walked
    split
    · exact .returned walked
    · exact .failed walked

/-- **What a request keeps**: all that every pass keeps, and its last pass, where it returns a port.
-/
theorem requestPort_cases {I : PortAllocator → Prop} {attempts : List Attempt}
    (keeps : ∀ a, I a → a.trackUsed < a.trackLen → ∀ after, Tried a (after, none) → I after)
    (inv : I a) {after : PortAllocator} {port : Option Nat}
    (returns : a.requestPort attempts = some (after, port)) :
    (port = none ∧ I after) ∨ ∃ last, I last ∧ last.trackUsed < last.trackLen ∧
      Tried last (after, port) ∧ port.isSome := by
  induction attempts generalizing a with
  | nil =>
    rw [requestPort] at returns
    split at returns
    · cases returns
    · cases returns
      exact .inl ⟨rfl, inv⟩
  | cons attempt attempts ih =>
    rw [requestPort] at returns
    split at returns
    next room =>
      have tried := tryPort_tried (a := a) (by omega) attempt
      split at returns
      next result =>
        rw [result] at tried
        cases returns
        exact .inr ⟨a, inv, room, tried, rfl⟩
      next next_ result =>
        rw [result] at tried
        exact ih (keeps a inv room next_ tried) returns
    · cases returns
      exact .inl ⟨rfl, inv⟩

theorem Tried.alike {out : PortAllocator × Option Nat} (tried : Tried a out) :
    Alike a out.1 := by
  cases tried <;> exact ⟨rfl, rfl, rfl⟩

theorem freePort_alike (a : PortAllocator) (port : Nat) : Alike a (a.freePort port).1 := by
  unfold freePort
  split
  · exact .refl a
  · split
    · exact ⟨rfl, rfl, rfl⟩
    · exact .refl a

end PortAllocator

/-! ### The ports that are returned -/

section Issued

variable {a : PortAllocator}

theorem returned_portAt {attempts : List Attempt} {after : PortAllocator} {port : Nat}
    (returns : a.requestPort attempts = some (after, some port)) :
    ∃ i < a.trackLen, port = a.portAt i := by
  rcases requestPort_cases (I := Alike a)
      (fun _ alike _ _ tried => alike.trans tried.alike) (.refl a) returns with
    ⟨none, -⟩ | ⟨last, alike, -, tried, -⟩
  · cases none
  · cases tried with
    | returned walked =>
      obtain ⟨inside, -⟩ := walked.found _ rfl
      rw [alike.trackLen] at inside
      exact ⟨_, inside, by rw [alike.portAt]⟩

theorem requestPort_alike {attempts : List Attempt} {after : PortAllocator} {port : Option Nat}
    (returns : a.requestPort attempts = some (after, port)) : Alike a after := by
  rcases requestPort_cases (I := Alike a)
      (fun _ alike _ _ tried => alike.trans tried.alike) (.refl a) returns with
    ⟨-, alike⟩ | ⟨last, alike, -, tried, -⟩
  · exact alike
  · exact alike.trans tried.alike

structure IssuedInv (a : PortAllocator) (p : Ports) : Prop where
  alike : Alike a p.allocator
  cells : ∀ port ∈ p.issued, ∃ i < a.trackLen, port = a.portAt i

theorem IssuedInv.step {p : Ports} (inv : IssuedInv a p) (op : PortOp) :
    IssuedInv a (p.step op) := by
  cases op with
  | free port => exact ⟨inv.alike.trans (p.allocator.freePort_alike port), inv.cells⟩
  | request attempts =>
    rw [Ports.step]
    split
    next after port returns =>
      refine ⟨inv.alike.trans (requestPort_alike returns), fun other member => ?_⟩
      rcases List.mem_cons.mp member with rfl | earlier
      · obtain ⟨i, inside, rfl⟩ := returned_portAt returns
        rw [inv.alike.trackLen] at inside
        exact ⟨i, inside, by rw [inv.alike.portAt]⟩
      · exact inv.cells other earlier
    next after returns => exact ⟨inv.alike.trans (requestPort_alike returns), inv.cells⟩
    next => exact inv

theorem run_issued (a : PortAllocator) (ops : List PortOp) :
    IssuedInv a (Run.run Ports.step (.start a) ops) :=
  Run.run_keeps_all (P := IssuedInv a) (fun _ op inv => inv.step op)
    ⟨.refl a, fun _ member => absurd member List.not_mem_nil⟩ ops

theorem requestPort_first {i : Nat} (inside : i < a.trackLen) (free : a.track i = 0)
    (room : a.trackUsed < a.trackLen) :
    a.requestPort [⟨i, true, true⟩] = some ({ a with
      track := update a.track i 1
      trackUsed := add 32 a.trackUsed 1 }, some (a.portAt i)) := by
  obtain ⟨fuel, size⟩ := Nat.exists_eq_succ_of_ne_zero (Nat.ne_zero_of_lt inside)
  have found : walk a.trackLen a.trackLen a.track (i % a.trackLen) = (a.track, some i) := by
    rw [Nat.mod_eq_of_lt inside]
    conv_lhs => rw [size]
    exact walk_free free
  have passes : a.passes ⟨i, true, true⟩ = true := by
    unfold PortAllocator.passes
    split
    · rfl
    · split <;> rfl
  have tried : a.tryPort ⟨i, true, true⟩ = ({ a with
      track := update a.track i 1
      trackUsed := add 32 a.trackUsed 1 }, some (a.portAt i)) := by
    unfold tryPort
    rw [found]
    dsimp only
    rw [if_pos passes]
  rw [requestPort, if_pos room, tried]

/-- **The ports that can ever be returned are those of the cells.** -/
theorem issued_iff (zeroed : ∀ i < a.trackLen, a.track i = 0) (unused : a.trackUsed = 0)
    (Q : Nat → Prop) :
    (∀ ops, ∀ port ∈ (Run.run Ports.step (.start a) ops).issued, Q port) ↔
      ∀ i < a.trackLen, Q (a.portAt i) := by
  constructor
  · intro all i inside
    refine all [.request [⟨i, true, true⟩]] (a.portAt i) ?_
    have returns := requestPort_first inside (zeroed i inside) (by omega)
    rw [Run.run_cons, Run.run_nil, Ports.step, Ports.start]
    rw [returns]
    exact List.mem_singleton_self _
  · intro all ops port member
    obtain ⟨i, inside, rfl⟩ := (run_issued a ops).cells port member
    exact all i inside

end Issued

/-! ### New allocators -/

section Create

variable {flags : PortFlags} {start last : Nat} {robust : Bool} {outside : Nat → Int}

theorem trackLenOf_of_le (order : start ≤ last + 2) (small : last < 2 ^ 16) :
    trackLenOf flags start last =
      if flags.both then last + 2 - start else (last + 2 - start) / 2 := by
  have span : (((last : Int) - start + 2) % 2 ^ 32).toNat = last + 2 - start := by
    rw [Int.emod_eq_of_lt (by omega) (by omega)]
    omega
  unfold trackLenOf
  rw [span]

theorem trackLenOf_of_lt (reversed : last + 2 < start) (small : start < 2 ^ 16) :
    2 ^ 30 < trackLenOf flags start last := by
  have span : (((last : Int) - start + 2) % 2 ^ 32).toNat = 2 ^ 32 + last + 2 - start := by
    omega
  unfold trackLenOf
  rw [span]
  dsimp only
  split <;> omega

theorem create_trackLen
    (order : roundStart flags start ≤ roundEnd flags last + 2)
    (small : roundEnd flags last < 2 ^ 16) :
    (create start last flags robust outside).trackLen =
      if flags.both then roundEnd flags last + 2 - roundStart flags start
      else (roundEnd flags last + 2 - roundStart flags start) / 2 :=
  trackLenOf_of_le order small

theorem create_portAt (i : Nat) :
    (create start last flags robust outside).portAt i =
      if flags.both then (i + roundStart flags start) % 2 ^ 16
      else (i + roundStart flags start / 2) % 2 ^ 16 * 2 % 2 ^ 16 := rfl

theorem create_freeIndex (port : Nat) :
    (create start last flags robust outside).freeIndex port =
      if port < roundStart flags start then none
      else if flags.both then some (port - roundStart flags start)
      else some ((port - roundStart flags start) / 2) := rfl

theorem roundStart_both (both : flags.both = true) : roundStart flags start = start := if_pos both

theorem roundEnd_both (both : flags.both = true) : roundEnd flags last = last := if_pos both

theorem roundStart_even (even : flags.even = true) (one : ¬ flags.both = true)
    (small : start < 2 ^ 16) :
    roundStart flags start = if start = 65535 then 0 else start + start % 2 := by
  unfold roundStart add
  rw [if_neg one, if_pos even]
  split <;> split <;> omega

theorem roundEnd_even (even : flags.even = true) (one : ¬ flags.both = true)
    (small : last < 2 ^ 16) : roundEnd flags last = last - last % 2 := by
  unfold roundEnd sub
  rw [if_neg one, if_pos even]
  split <;> omega

end Create

theorem create_zeroed (start last : Nat) (flags : PortFlags) (robust : Bool) (outside : Nat → Int) :
    ∀ i < (create start last flags robust outside).trackLen,
      (create start last flags robust outside).track i = 0 :=
  fun _ inside => if_pos (Nat.lt_add_right 2 inside)

end FreeSwitch
