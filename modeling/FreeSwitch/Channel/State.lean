/-
**The state of a channel and the calls that change it.**

`switch_channel_perform_set_state`, `switch_channel_perform_set_running_state` and
`switch_channel_perform_hangup` (`switch_channel.c`), cut at their mutexes: what a call does while
it holds a mutex, or in one unlocked access to the channel, is one turn of it, and between two
turns of a call any other call may take turns.

The variables of the partner, the hold record and the session's own thread, which the last part of
a hangup also touches, do not bear on the state and are left out.
-/

import FreeSwitch.Lib.Run

namespace FreeSwitch

/-! ### States -/

/-- `switch_channel_state_t`. -/
inductive ChannelState where
  | new | init | routing | softExecute | execute | exchangeMedia | park | consumeMedia | hibernate
  | reset | hangup | reporting | destroy | none
  deriving DecidableEq, Repr

def ChannelState.number : ChannelState → Nat
  | new => 0 | init => 1 | routing => 2 | softExecute => 3 | execute => 4 | exchangeMedia => 5
  | park => 6 | consumeMedia => 7 | hibernate => 8 | reset => 9 | hangup => 10 | reporting => 11
  | destroy => 12 | none => 13

instance : LE ChannelState := ⟨fun a b => a.number ≤ b.number⟩

instance : LT ChannelState := ⟨fun a b => a.number < b.number⟩

instance (a b : ChannelState) : Decidable (a ≤ b) := inferInstanceAs (Decidable (_ ≤ _))

instance (a b : ChannelState) : Decidable (a < b) := inferInstanceAs (Decidable (_ < _))

namespace ChannelState

variable {a b : ChannelState}

theorem le_def : a ≤ b ↔ a.number ≤ b.number := Iff.rfl

theorem lt_def : a < b ↔ a.number < b.number := Iff.rfl

theorem number_injective (same : a.number = b.number) : a = b := by
  cases a <;> cases b <;> first | rfl | exact absurd same (by decide)

/-- The changes that `switch_channel_perform_set_state` lets through, by the state before. -/
def mayFollow (state : ChannelState) : ChannelState → Bool
  | new | reset => true
  | init => state ∈ [exchangeMedia, softExecute, routing, execute, park, consumeMedia, hibernate,
      reset]
  | exchangeMedia => state ∈ [softExecute, routing, execute, park, consumeMedia, hibernate, reset]
  | softExecute => state ∈ [exchangeMedia, routing, execute, park, consumeMedia, hibernate, reset]
  | park => state ∈ [exchangeMedia, routing, execute, softExecute, hibernate, reset, consumeMedia]
  | consumeMedia => state ∈ [exchangeMedia, routing, execute, softExecute, hibernate, reset, park]
  | hibernate => state ∈ [exchangeMedia, init, routing, execute, softExecute, park, consumeMedia,
      reset]
  | routing => state ∈ [exchangeMedia, execute, softExecute, park, consumeMedia, hibernate, reset]
  | execute => state ∈ [exchangeMedia, softExecute, routing, park, consumeMedia, hibernate, reset]
  | hangup => state ∈ [reporting, destroy]
  | reporting => state ∈ [destroy]
  | destroy | none => false

end ChannelState

/-- `switch_channel_callstate_t`. -/
inductive Callstate where
  | down | dialing | ringing | early | active | held | ringWait | hangup | unheld
  deriving DecidableEq, Repr

inductive ChannelFlag where
  | answered | earlyMedia | legHolding | hangupHeld | blockState | tagged | proxyMode | bridged
  deriving DecidableEq, Repr

inductive ChannelEvent where
  | state (running : ChannelState)
  | callstate (original : Callstate)
  | unhold
  | hangup (state : ChannelState)
  deriving DecidableEq, Repr

/-- A `CHANNEL_HANGUP` event. -/
def ChannelEvent.isHangup : ChannelEvent → Bool
  | hangup _ => true
  | _ => false

/-! ### The channel -/

/-- The fields of `switch_channel_t` that the three functions share. `hangupCause` is zero for
`SWITCH_CAUSE_NONE`; `fired` are the events so far. -/
structure ChannelCore where
  state : ChannelState
  runningState : ChannelState
  callstate : Callstate
  hangupCause : Nat
  ocfHangup : Bool
  inbound : Bool
  flags : List ChannelFlag
  stateFlags : List ChannelFlag
  fired : List ChannelEvent
  deriving DecidableEq, Repr

def causeNormalClearing : Nat := 16

variable (ch : ChannelCore) (created : Bool)

namespace ChannelCore

/-- `switch_event_fire` of an event, when `switch_event_create` made one. -/
def fire (event : ChannelEvent) : ChannelCore :=
  if created then { ch with fired := ch.fired ++ [event] } else ch

def testFlag (flag : ChannelFlag) : Bool := flag ∈ ch.flags

def setCallstate (callstate : Callstate) : ChannelCore :=
  if ch.callstate = callstate ∨ ch.callstate = .hangup then ch
  else fire { ch with callstate := callstate } created (.callstate ch.callstate)

def clearFlag (flag : ChannelFlag) : ChannelCore :=
  let active := flag == .legHolding && ch.testFlag flag && ch.testFlag .answered
  let cleared := { ch with flags := ch.flags.filter (· != flag) }
  if active then
    let unheld := cleared.setCallstate created .unheld
    if unheld.testFlag .proxyMode && unheld.testFlag .bridged then
      unheld.setCallstate created .active
    else unheld
  else cleared

/-- `switch_channel_mark_hold(channel, SWITCH_FALSE)` and `CF_HANGUP_HELD`, for a leg on hold. -/
def releaseHold (created : Bool) : ChannelCore :=
  if ch.testFlag .legHolding then
    let released := (ch.clearFlag created .legHolding).fire created .unhold
    { released with flags := .hangupHeld :: released.flags }
  else ch

/-- `switch_channel_perform_set_running_state` under `flag_mutex`, and the clearing of `CF_TAGGED`.
-/
def moveStateFlags (ch : ChannelCore) : ChannelCore :=
  { ch with
    flags := (ch.flags ++ ch.stateFlags).filter (· != .tagged)
    stateFlags := [] }

/-- The part of `switch_channel_perform_set_running_state` under `state_mutex`. -/
def setRunningState (state : ChannelState) : ChannelCore :=
  let running := { ch with runningState := state }
  if state ≤ .destroy then
    let called :=
      if running.inbound ∧ state < .hangup then
        if state = .routing then running.setCallstate created .ringing
        else if running.testFlag .answered then running.setCallstate created .active
        else if running.testFlag .earlyMedia then running.setCallstate created .early
        else running
      else running
    called.fire created (.state called.runningState)
  else running

/-- The cause in a state: `CS_HANGUP` brings one when there is none. -/
def causeIn (state : ChannelState) : Nat :=
  if state = .hangup ∧ ch.hangupCause = 0 then causeNormalClearing else ch.hangupCause

/-- `switch_channel_perform_set_state`, all under `state_mutex`; `none` is a `switch_assert` that
fails. -/
def setState (state : ChannelState) : Option ChannelCore :=
  if state = .none ∨ ch.state = .none then none
  else if ch.state = state then some ch
  else if .hangup ≤ ch.state ∧ state < ch.state then some ch
  else if state.mayFollow ch.state then
    some { ch with state := state, hangupCause := ch.causeIn state }
  else if .hangup ≤ ch.state then some ch
  else none

/-- How many `CHANNEL_HANGUP` events were fired. -/
def hangups (ch : ChannelCore) : Nat := ch.fired.countP ChannelEvent.isHangup

end ChannelCore

/-! ### The calls -/

inductive Call where
  /-- `switch_channel_perform_set_state` has been called. -/
  | setState (state : ChannelState)
  /-- `switch_channel_perform_set_running_state` has been called. -/
  | setRunningState (state : ChannelState)
  /-- The flags are moved, `state_mutex` comes next. -/
  | flagsMoved (state : ChannelState)
  /-- `switch_channel_perform_hangup` has been called. -/
  | hangup (cause : Nat)
  /-- Behind the first section of a hangup: `ok` says that `OCF_HANGUP` was not set before. -/
  | claimed (ok : Bool) (cause : Nat)
  /-- The hold is released, `ok` and the state are tested next. -/
  | released (ok : Bool) (cause : Nat)
  /-- The state was below `CS_HANGUP` when it was tested. -/
  | tested (cause : Nat)
  /-- `CS_HANGUP` is stored, the cause is not. -/
  | stored (cause : Nat)
  | caused
  | returned (state : ChannelState)
  deriving DecidableEq, Repr

/-- **The next turn of a call.** `created` is what `switch_event_create` answers; `none` is a failed
assertion, which ends the process. -/
def Call.next (created : Bool) : Call → Option (ChannelCore × Call)
  | .setState state => (ch.setState state).map fun ch => (ch, .returned ch.state)
  | .setRunningState state => some (ch.moveStateFlags, .flagsMoved state)
  | .flagsMoved state => some (ch.setRunningState created state, .returned .new)
  | .hangup cause => some ({ ch with ocfHangup := true }, .claimed (!ch.ocfHangup) cause)
  | .claimed ok cause => some (ch.releaseHold created, .released ok cause)
  | .released ok cause =>
    if ok then
      let opened := ch.clearFlag created .blockState
      some (opened, if opened.state < .hangup then .tested cause else .returned opened.state)
    else some (ch, .returned ch.state)
  | .tested cause => some ({ ch with state := .hangup }, .stored cause)
  | .stored cause => some ({ ch with hangupCause := cause }, .caused)
  | .caused => some (ch.fire created (.hangup ch.state), .returned ch.state)
  | .returned state => some (ch, .returned state)

/-- A channel and the calls on it; `aborted` when an assertion has failed. -/
structure Exchange where
  channel : ChannelCore
  calls : List Call
  aborted : Bool
  deriving DecidableEq, Repr

/-- Which call takes the next turn, and whether an event can be created in it. -/
structure Turn where
  call : Nat
  created : Bool
  deriving DecidableEq, Repr

def Exchange.turn (x : Exchange) (t : Turn) : Exchange :=
  if x.aborted then x
  else
    match x.calls[t.call]? with
    | none => x
    | some call =>
      match call.next x.channel t.created with
      | none => { x with aborted := true }
      | some (channel, call) => { x with channel, calls := x.calls.set t.call call }

/-- A channel as `switch_channel_alloc` and `switch_channel_init` leave it, and calls before their
first turn. -/
structure Exchange.Fresh (x : Exchange) : Prop where
  below : x.channel.state < .hangup
  unset : x.channel.hangupCause = 0
  unclaimed : x.channel.ocfHangup = false
  silent : x.channel.hangups = 0
  begun : ∀ call ∈ x.calls, (∃ state, call = .setState state) ∨
    (∃ state, call = .setRunningState state) ∨ ∃ cause, call = .hangup cause

end FreeSwitch
