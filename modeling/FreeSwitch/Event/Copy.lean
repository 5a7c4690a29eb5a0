/-
**Creating, merging and duplicating events, from `switch_event.c`.**

`switch_event_merge` and `switch_event_dup` replay the headers of one event on another through
`switch_event_add_header_string`: an array element by element with `SWITCH_STACK_PUSH`, a scalar
with `SWITCH_STACK_BOTTOM` (`replayAdds`). `eventMerge_eq` and `eventDup_eq` read both as one fold
of single additions, so that what holds of every addition holds of the copies.
-/

import FreeSwitch.Event.Header
import FreeSwitch.Lib.Run

namespace FreeSwitch

open CString

/-! ### Creation -/

/-- What `switch_event_prep_for_delivery` reads from the core and its caller. -/
structure Delivery where
  coreUuid : Option Text
  hostname : Option Text
  switchname : Option Text
  guessIpV4 : Text
  guessIpV6 : Text
  dateLocal : Text
  dateGmt : Text
  timestamp : Text
  callingFile : Text
  callingFunction : Option Text
  callingLine : Text
  sequence : Text
  deriving Inhabited

def deliveryHeaders (info : Delivery) (id : EventType) : List (Text × Option Text) := [
  ("Event-Name", some (eventName id)),
  ("Core-UUID", info.coreUuid),
  ("FreeSWITCH-Hostname", info.hostname),
  ("FreeSWITCH-Switchname", info.switchname),
  ("FreeSWITCH-IPv4", some info.guessIpV4),
  ("FreeSWITCH-IPv6", some info.guessIpV6),
  ("Event-Date-Local", some info.dateLocal),
  ("Event-Date-GMT", some info.dateGmt),
  ("Event-Date-Timestamp", some info.timestamp),
  ("Event-Calling-File", some info.callingFile),
  ("Event-Calling-Function", info.callingFunction),
  ("Event-Calling-Line-Number", some info.callingLine),
  ("Event-Sequence", some info.sequence)]

/-- `switch_event_prep_for_delivery_detailed`. -/
def eventPrepForDelivery (info : Delivery) (e : Event) : Event :=
  (deliveryHeaders info e.eventId).foldl
    (fun e header => eventAddHeaderString e Stack.bottom header.1 header.2) e

/-- The zeroed event of `switch_event_create_subclass`, with the flag of some types. -/
def eventAlloc (id : EventType) : Event :=
  ⟨.custom, none, Chain.empty, none, decide (id = .requestParams ∨ id = .channelData ∨ id = .message)⟩

/-- The end of `switch_event_create_subclass`: the subclass name and its header. -/
def eventAddSubclass (subclass : Option Text) (e : Event) : Event :=
  match subclass with
  | some name => eventAddHeaderString { e with subclassName := some name } Stack.bottom
      "Event-Subclass" (some name)
  | none => e

/-- `switch_event_create_subclass`: only a clone or custom event may have a subclass, and a clone is
not prepared for delivery. -/
def eventCreateSubclass (info : Delivery) (id : EventType) (subclass : Option Text) :
    Option Event :=
  if (id ≠ .clone ∧ id ≠ .custom) ∧ subclass.isSome then none
  else
    let e := eventAlloc id
    some (eventAddSubclass subclass
      (if id ≠ .clone then eventPrepForDelivery info { e with eventId := id } else e))

def eventCreatePlain (id : EventType) : Event :=
  { eventAlloc .clone with
    eventId := id
    uniqHeaders := decide (id = .requestParams ∨ id = .channelData) }

/-! ### Replaying headers -/

/-- One call of `switch_event_add_header_string`. -/
structure Addition where
  stack : Stack
  name : Text
  data : Option Text

def applyAddition (e : Event) (a : Addition) : Event := eventAddHeaderString e a.stack a.name a.data

abbrev applyAdditions : Event → List Addition → Event := Run.run applyAddition

def replayHeader (e : Event) (h : Header) : Event :=
  if h.idx ≠ 0 then
    h.array.foldl (fun e element => eventAddHeaderString e Stack.pushed h.name (some element)) e
  else eventAddHeaderString e Stack.bottom h.name h.value

def eventMerge (e tomerge : Event) : Event := tomerge.list.foldl replayHeader e

/-- The copy of `switch_event_dup` before the headers are replayed. -/
def dupStart (todup : Event) : Event :=
  { eventAddSubclass todup.subclassName (eventAlloc .clone) with
    eventId := todup.eventId
    uniqHeaders := todup.uniqHeaders }

/-- The header `switch_event_create_subclass` has made is not replayed. -/
def dupSkips (todup : Event) (h : Header) : Bool :=
  todup.subclassName.isSome && h.name == "Event-Subclass"

def eventDup (todup : Event) : Event :=
  let e := todup.list.foldl (fun e h => if dupSkips todup h then e else replayHeader e h)
    (dupStart todup)
  match todup.body with
  | some body => { e with body := some body }
  | none => e

def replayAdds (h : Header) : List Addition :=
  if h.idx ≠ 0 then h.array.map fun element => ⟨Stack.pushed, h.name, some element⟩
  else [⟨Stack.bottom, h.name, h.value⟩]

/-- The calls `switch_event_merge` makes. -/
def mergeAdds (tomerge : Event) : List Addition := tomerge.list.flatMap replayAdds

/-- The calls `switch_event_dup` makes. -/
def dupAdds (todup : Event) : List Addition :=
  (todup.list.filter fun h => !dupSkips todup h).flatMap replayAdds

theorem replayHeader_eq (e : Event) (h : Header) :
    replayHeader e h = applyAdditions e (replayAdds h) := by
  unfold replayHeader replayAdds applyAdditions Run.run
  split
  · rw [List.foldl_map]
    rfl
  · rfl

theorem foldl_replayHeader (headers : List Header) (e : Event) :
    headers.foldl replayHeader e = applyAdditions e (headers.flatMap replayAdds) := by
  induction headers generalizing e with
  | nil => rfl
  | cons h headers ih =>
    rw [List.foldl_cons, ih, replayHeader_eq, List.flatMap_cons]
    exact (Run.run_append ..).symm

theorem eventMerge_eq (e tomerge : Event) :
    eventMerge e tomerge = applyAdditions e (mergeAdds tomerge) :=
  foldl_replayHeader _ _

theorem eventDup_eq (todup : Event) :
    eventDup todup =
      { applyAdditions (dupStart todup) (dupAdds todup) with
        body := todup.body.or (applyAdditions (dupStart todup) (dupAdds todup)).body } := by
  have fold : ∀ (headers : List Header) (e : Event),
      headers.foldl (fun e h => if dupSkips todup h then e else replayHeader e h) e =
        (headers.filter fun h => !dupSkips todup h).foldl replayHeader e := by
    intro headers
    induction headers with
    | nil => exact fun _ => rfl
    | cons h headers ih =>
      intro e
      by_cases skip : dupSkips todup h = true <;> simp [skip, ih]
  unfold eventDup dupAdds
  simp only [fold, foldl_replayHeader]
  cases todup.body with
  | none => rfl
  | some body => rfl

end FreeSwitch
