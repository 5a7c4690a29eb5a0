/-
**The runs of the valet parking application.**

Any number of runs of `valet_parking_function`, and of `check_timeouts`, on one lot. A step of a run
goes from one operation on a mutex to the next; what is done with `lot->mutex` held is one step. Tokens
are at addresses, and `fault` says that a token was used that had been freed.
-/

import FreeSwitch.Valet.Lot

namespace FreeSwitch

open CString

inductive ValetGoal
  | explicit (ext : Text)
  | auto (isIn : Bool) (min max : Int)

inductive ValetPc
  | start
  /-- Before `ext` is looked up. -/
  | look
  /-- In `next_id`: before `find_longest`, before the slot it has found, and in the loop. -/
  | longest
  | slot (i : Int)
  | scan (i : Int)
  | test (i : Int)
  | claim (i : Int)
  /-- `next_id` has returned a token. -/
  | got
  /-- `ext` was looked up. -/
  | looked
  | deleting
  | clearing
  | inserting
  | inserted
  /-- In `valet_send_presence`: in `valet_lot_count`, and behind it. -/
  | counting (leaves : Bool)
  | showing (leaves : Bool)
  | playing
  | ending
  | done
deriving DecidableEq

structure ValetRun where
  uuid : Text
  goal : ValetGoal
  pc : ValetPc
  token : Option Nat
  ext : Text

def ValetRun.isIn (r : ValetRun) : Bool :=
  match r.goal with
  | .explicit _ => false
  | .auto isIn _ _ => isIn

/-- The bounds for `next_id`. -/
def ValetRun.min (r : ValetRun) : Int :=
  match r.goal with
  | .explicit _ => 1
  | .auto _ min _ => if min = 0 then 1 else min

def ValetRun.max (r : ValetRun) : Int :=
  match r.goal with
  | .explicit _ => 0
  | .auto _ _ max => max

/-- The tokens, the table, the holder of `globals.mutex`, and the runs. -/
structure ValetWorld where
  heap : Nat → Option ValetToken
  next : Nat
  hash : List (Text × Nat)
  globals : Option Nat
  runs : Nat → ValetRun
  fault : Bool

/-- What a step finds: the time, `valet_ticket`, whether the parked channel can be bridged, and
whether there is a partner to be parked instead. -/
structure ValetEnv where
  now : Int
  ticket : Text
  located : Bool
  partner : Bool

namespace ValetWorld

variable (w : ValetWorld)

def goto (id : Nat) (r : ValetRun) : ValetWorld := { w with runs := Function.update w.runs id r }

def crash : ValetWorld := { w with fault := true }

def deref (token : Option Nat) (use : Nat → ValetToken → ValetWorld) : ValetWorld :=
  match token with
  | none => w.crash
  | some a =>
    match w.heap a with
    | none => w.crash
    | some t => use a t

def write (a : Nat) (t : ValetToken) : ValetWorld :=
  { w with heap := Function.update w.heap a (some t) }

/-- `switch_zmalloc`, and the fields that are set at once. -/
def alloc (t : ValetToken) : ValetWorld :=
  { w with heap := Function.update w.heap w.next (some t), next := w.next + 1 }

def find (ext : Text) : Option Nat := w.hash.lookup ext

def delete (ext : Text) : ValetWorld := { w with hash := w.hash.filter (·.1 ≠ ext) }

def insert (ext : Text) (a : Nat) : ValetWorld :=
  { w with hash := (ext, a) :: w.hash.filter (·.1 ≠ ext) }

/-- `globals.mutex` is unlocked. -/
def unlock : ValetWorld := { w with globals := none }

def allLive : Bool := w.hash.all fun entry => (w.heap entry.2).isSome

def lot : ValetLot := w.hash.filterMap fun entry => (w.heap entry.2).map (entry.1, ·)

end ValetWorld

/-- A step of the run `r`, number `id`. -/
def ValetWorld.runStep (w : ValetWorld) (id : Nat) (e : ValetEnv) (r : ValetRun) : ValetWorld :=
  match r.pc with
  | .start =>
    match r.goal with
    | .explicit ext => w.goto id { r with pc := .look, ext := ext }
    | .auto isIn _ _ =>
      if w.globals.isSome then w
      else
        { w with globals := some id }.goto id { r with pc := if isIn then .scan r.min else .longest }
  | .look => w.goto id { r with pc := .looked, token := w.find r.ext }
  | .longest =>
    let longest := findLongest w.lot r.min r.max e.now
    if w.allLive then w.goto id { r with pc := if longest > 0 then .slot longest else .scan r.min }
    else w.crash
  | .slot i =>
    match w.find (intText i) with
    | some a => w.unlock.goto id { r with pc := .got, token := some a }
    | none => w.goto id { r with pc := .scan r.min }
  | .scan i =>
    if i ≤ r.max ∨ r.max = 0 then
      match w.find (intText i), r.isIn with
      | none, true => w.goto id { r with pc := .claim i }
      | some a, false => w.goto id { r with pc := .test i, token := some a }
      | _, _ => w.goto id { r with pc := .scan (nextSlot i) }
    else w.unlock.goto id { r with pc := .done }
  | .test i => w.deref r.token fun _ t =>
      if t.timeout = 0 then w.unlock.goto id { r with pc := .got }
      else w.goto id { r with pc := .scan (nextSlot i), token := none }
  | .claim i =>
    if i = 0 then w.unlock.goto id { r with pc := .done }
    else
      ((w.alloc ⟨intText i, r.uuid, 0, false, e.now⟩).insert (intText i) w.next).unlock.goto id
        { r with pc := .got, token := some w.next, ext := intText i }
  | .got => w.deref r.token fun _ t =>
      w.goto id { r with pc := if r.isIn then .inserted else .looked, ext := t.ext }
  | .looked =>
    match r.token with
    | none =>
      (w.alloc ⟨r.ext, r.uuid, 0, false, e.now⟩).goto id
        { r with pc := .inserting, token := some w.next }
    | some a => w.deref (some a) fun a t =>
        let ticketed := !t.bridged && t.timeout ≠ 0 && e.ticket ≠ []
        if ticketed && e.ticket ≠ t.uuid then w.goto id { r with pc := .done }
        else if !t.bridged && t.uuid ≠ [] && e.located then
          (w.write a { t with timeout := 0, bridged := true }).goto id { r with pc := .done }
        else
          (w.write a { t with timeout := if ticketed then 0 else t.timeout }).goto id
            { r with pc := .deleting }
  | .deleting => w.deref r.token fun _ t => (w.delete t.ext).goto id { r with pc := .clearing }
  | .clearing => w.deref r.token fun a _ =>
      (w.write a ⟨r.ext, r.uuid, 0, false, e.now⟩).goto id { r with pc := .inserting }
  | .inserting =>
    match r.token with
    | none => w.crash
    | some a => (w.insert r.ext a).goto id { r with pc := .inserted }
  | .inserted => w.deref r.token fun a t =>
      if r.isIn && e.partner then
        (w.write a { t with timeout := e.now + 5 }).goto id { r with pc := .ending }
      else w.goto id { r with pc := .counting false }
  | .counting leaves =>
    if w.allLive then w.goto id { r with pc := .showing leaves } else w.crash
  | .showing leaves => w.deref r.token fun _ _ =>
      w.goto id { r with pc := if leaves then .done else .playing }
  | .playing => w.deref r.token fun a t =>
      (w.write a { t with timeout := 1 }).goto id { r with pc := .counting true }
  | .ending => w.deref r.token fun a t =>
      (w.write a { t with timeout := 1 }).goto id { r with pc := .done }
  | .done => w

def ValetToken.expired (now : Int) (t : ValetToken) : Bool :=
  t.timeout > 0 ∧ (t.timeout < now ∨ t.timeout = 1)

def ValetWorld.gone (w : ValetWorld) (now : Int) : List (Text × Nat) :=
  w.hash.filter fun entry => (w.heap entry.2).any (·.expired now)

/-- `check_timeouts` for the lot. A token twice in the table would be used again after it is freed.
-/
def ValetWorld.checkTimeouts (w : ValetWorld) (now : Int) : ValetWorld :=
  if w.allLive ∧ ((w.gone now).map Prod.snd).Nodup then
    { w with
      hash := w.hash.filter fun entry => !(w.heap entry.2).any (·.expired now)
      heap := fun a => if a ∈ (w.gone now).map Prod.snd then none else w.heap a }
  else w.crash

inductive ValetStep
  | run (id : Nat) (e : ValetEnv)
  | check (now : Int)

def ValetWorld.step (w : ValetWorld) : ValetStep → ValetWorld
  | .run id e => w.runStep id e (w.runs id)
  | .check now => w.checkTimeouts now

def ValetWorld.empty (uuid : Nat → Text) (goal : Nat → ValetGoal) : ValetWorld :=
  ⟨fun _ => none, 0, [], none, fun id => ⟨uuid id, goal id, .start, none, []⟩, false⟩

end FreeSwitch
