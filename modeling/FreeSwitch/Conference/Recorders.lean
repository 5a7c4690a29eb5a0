/-
**Members without a session.**

A recording is listed like a caller, but has no session. A pass of `conference_thread_run` asks for the
channels of members in four places: it reads the audio of the callers, a new one may hold the floor, the
automatic recording may start, and two of them may be bridged for video.

* `sessions_requested_iff`: when no pass of a run asks for the channel of a member without a session.
-/

import FreeSwitch.Lib.Run

namespace FreeSwitch

open Run List

/-! ### The code -/

/-- What changes while a member is listed. -/
structure MemberStatus where
  running : Bool
  videoBridge : Bool
  scoreIir : Nat
deriving DecidableEq

structure ListedMember where
  id : Nat
  session : Option Nat
  ghost : Bool
  autorec : Bool
  status : MemberStatus
deriving DecidableEq

/-- With the flags `CFLAG_VID_FLOOR` and `CFLAG_VIDEO_BRIDGE`; `vhUp` says that a side of a video
bridge is up, `mhUp` that `mh.up` is not 0. `ending` is the number of threads of automatic recordings
that have left the list, and not yet counted down `auto_recording`. -/
structure RecordedConference where
  members : List ListedMember
  floorHolder : Option Nat
  count : BitVec 32
  autoRecord : Bool
  autoRecording : Nat
  ending : Nat
  minRecordingParticipants : Nat
  vidFloor : Bool
  videoBridge : Bool
  vhUp : Bool
  mhUp : Bool

/-- What the channels of the sessions say. -/
structure ChannelView where
  ready : Nat → Bool
  video : Nat → Bool

/-- The variables of the first loop, and the sessions whose channel was asked for. -/
structure ReadLoop where
  floorHolder : Option ListedMember
  membersWithVideo : Nat
  bridge : Option ListedMember × Option ListedMember
  requested : List (Option Nat)

variable (conf : RecordedConference)

def readMember (view : ChannelView) (loop : ReadLoop) (imember : ListedMember) : ReadLoop :=
  if imember.status.running && imember.session.isSome then
    let video := imember.session.any view.video
    let shown := imember.session.any view.ready && video
    { floorHolder :=
        if loop.floorHolder.all (fun holder =>
            imember.status.scoreIir > 300 && holder.status.scoreIir < 100) && (!conf.vidFloor || video) then
          some imember
        else loop.floorHolder
      membersWithVideo := if shown then loop.membersWithVideo + 1 else loop.membersWithVideo
      bridge :=
        if shown && conf.videoBridge && imember.status.videoBridge then
          if loop.bridge.1.isNone then (some imember, loop.bridge.2) else (loop.bridge.1, some imember)
        else loop.bridge
      requested := loop.requested ++ [imember.session] }
  else loop

def RecordedConference.readLoop (view : ChannelView) : ReadLoop :=
  conf.members.foldl (readMember conf view)
    ⟨conf.floorHolder.bind fun id => conf.members.find? (·.id = id), 0, (none, none), []⟩

/-- The floor changes. -/
def RecordedConference.floorRequests (loop : ReadLoop) : List (Option Nat) :=
  if loop.floorHolder.map (·.id) ≠ conf.floorHolder then (loop.floorHolder.map (·.session)).toList else []

/-- The automatic recording starts in this pass. -/
def RecordedConference.recordingStarts (conf : RecordedConference) : Prop :=
  conf.autoRecord = true ∧ conf.autoRecording = 0 ∧ conf.minRecordingParticipants ≤ conf.count.toNat

instance (conf : RecordedConference) : Decidable conf.recordingStarts :=
  inferInstanceAs (Decidable (_ ∧ _ ∧ _))

/-- The file name is expanded with the channel of the first member, and told to all. -/
def RecordedConference.recordRequests (conf : RecordedConference) : List (Option Nat) :=
  if conf.recordingStarts then
    (conf.members.head?.map (·.session)).toList ++ conf.members.map (·.session)
  else []

def RecordedConference.bridgeRequests (view : ChannelView) (loop : ReadLoop) : List (Option Nat) :=
  if loop.membersWithVideo = 0 || conf.vhUp then [] else
  match loop.bridge with
  | (some first, some second) =>
    if first.status.running && second.status.running then
      first.session :: if first.session.any view.ready then [second.session] else []
    else []
  | (some first, none) => if !conf.mhUp && first.status.running then [first.session] else []
  | (none, _) => []

/-- The sessions of which a pass asks for the channel. -/
def RecordedConference.requests (view : ChannelView) : List (Option Nat) :=
  let loop := conf.readLoop view
  loop.requested ++ conf.floorRequests loop ++ conf.recordRequests ++ conf.bridgeRequests view loop

inductive RecordedStep
  /-- `conference_add_member` for a caller -/
  | join (id session : Nat) (ghost : Bool) (status : MemberStatus)
  /-- `conference_add_member` for a recording -/
  | record (id : Nat) (autorec : Bool) (status : MemberStatus)
  /-- `conference_del_member` -/
  | leave (id : Nat)
  /-- the end of `conference_record_thread_run`, of an automatic recording -/
  | recordEnd
  /-- `conference_record_stop`, with the recordings that have the path -/
  | recordStop (hasPath : Nat → Bool) (restart : Bool)
  | update (id : Nat) (status : MemberStatus)
  /-- `mh.up` and `vh[..].up` are set by the video threads -/
  | video (vhUp mhUp : Bool)
  | pass (view : ChannelView)

def RecordedConference.addMember (m : ListedMember) : RecordedConference :=
  { conf with
    members := { m with status := { m.status with scoreIir := 0 } } :: conf.members
    count := if m.session.isSome && !m.ghost then conf.count + 1 else conf.count }

def RecordedConference.delMember (m : ListedMember) : RecordedConference :=
  { conf with
    members := conf.members.erase m
    floorHolder := if conf.floorHolder = some m.id then none else conf.floorHolder
    count := if m.session.isSome && !m.ghost then conf.count - 1 else conf.count
    ending := if m.autorec then conf.ending + 1 else conf.ending }

def RecordedConference.step (conf : RecordedConference) : RecordedStep → RecordedConference
  | .join id session ghost status => conf.addMember ⟨id, some session, ghost, false, status⟩
  | .record id autorec status => conf.addMember ⟨id, none, false, autorec, status⟩
  | .leave id => (conf.members.find? (·.id = id)).elim conf conf.delMember
  | .recordEnd =>
    if conf.ending = 0 then conf
    else { conf with ending := conf.ending - 1, autoRecording := conf.autoRecording - 1 }
  | .recordStop hasPath restart =>
    let stops (m : ListedMember) : Bool := m.session.isNone && hasPath m.id
    { conf with
      members := conf.members.map fun m =>
        if stops m then { m with status := { m.status with running := false } } else m
      autoRecord := conf.autoRecord && !conf.members.any fun m => stops m && !restart && m.autorec }
  | .update id status =>
    { conf with members := conf.members.map fun m => if m.id = id then { m with status := status } else m }
  | .video vhUp mhUp => { conf with vhUp := vhUp, mhUp := mhUp }
  | .pass view =>
    { conf with
      floorHolder := (conf.readLoop view).floorHolder.map (·.id)
      autoRecording := if conf.recordingStarts then conf.autoRecording + 1 else conf.autoRecording }

/-! ### The requests of a pass -/

open RecordedConference

/-- The first loop asks for channels of callers, and a member it chooses is one. -/
structure ReadLoop.Callers (holder : Option ListedMember) (loop : ReadLoop) : Prop where
  requested : none ∉ loop.requested
  floor : loop.floorHolder = holder ∨ ∀ m ∈ loop.floorHolder, m.session ≠ none
  first : ∀ m ∈ loop.bridge.1, m.session ≠ none
  second : ∀ m ∈ loop.bridge.2, m.session ≠ none

theorem callers_readMember {conf : RecordedConference} {view : ChannelView}
    {holder : Option ListedMember} {loop : ReadLoop} (callers : loop.Callers holder) (m : ListedMember) :
    (readMember conf view loop m).Callers holder := by
  unfold readMember
  by_cases reads : (m.status.running && m.session.isSome) = true
  · have caller : m.session ≠ none := Option.isSome_iff_ne_none.mp (Bool.and_eq_true_iff.mp reads).2
    have chosen : ∀ x ∈ some m, x.session ≠ none := by simpa using caller
    rw [if_pos reads]
    refine ⟨?_, ?_, ?_, ?_⟩
    · simpa [callers.requested] using caller.symm
    · dsimp only
      split_ifs
      exacts [.inr chosen, callers.floor]
    · dsimp only
      split_ifs
      exacts [chosen, callers.first, callers.first]
    · dsimp only
      split_ifs
      exacts [callers.second, chosen, callers.second]
  · rw [if_neg reads]
    exact callers

section Pass

variable (conf : RecordedConference) (view : ChannelView)

theorem callers_readLoop :
    (conf.readLoop view).Callers (conf.floorHolder.bind fun id => conf.members.find? (·.id = id)) := by
  refine foldlRecOn conf.members _ ?_ fun _ callers m _ => callers_readMember callers m
  exact ⟨not_mem_nil, .inl rfl, by simp, by simp⟩

theorem floorRequests_callers : none ∉ conf.floorRequests (conf.readLoop view) := by
  have callers := callers_readLoop conf view
  unfold floorRequests
  split_ifs with changed
  · cases held : (conf.readLoop view).floorHolder with
    | none => simp
    | some m =>
      obtain same | caller := callers.floor
      · -- the floor has not changed
        rw [held] at same changed
        obtain ⟨id, holds, found⟩ := Option.bind_eq_some_iff.mp same.symm
        have named : m.id = id := by simpa using find?_some found
        rw [holds, Option.map_some, named] at changed
        exact absurd rfl changed
      · simpa using (caller m held).symm
  · exact not_mem_nil

theorem bridgeRequests_callers : none ∉ conf.bridgeRequests view (conf.readLoop view) := by
  have callers := callers_readLoop conf view
  have first := callers.first
  have second := callers.second
  unfold bridgeRequests
  split_ifs
  · exact not_mem_nil
  · generalize (conf.readLoop view).bridge = bridge at *
    obtain ⟨_ | one, _ | two⟩ := bridge
    · exact not_mem_nil
    · exact not_mem_nil
    · dsimp only
      split_ifs
      exacts [by simpa using (first one rfl).symm, not_mem_nil]
    · have one_ := (first one rfl).symm
      have two_ := (second two rfl).symm
      dsimp only
      split_ifs <;> simp [one_, two_]

/-- **A pass asks for no channel of a member without a session** exactly when the automatic
recording does not start, or every listed member has one. -/
theorem pass_requests_iff :
    none ∉ conf.requests view ↔ (conf.recordingStarts → ∀ m ∈ conf.members, m.session ≠ none) := by
  have record : none ∉ conf.recordRequests ↔
      (conf.recordingStarts → ∀ m ∈ conf.members, m.session ≠ none) := by
    unfold recordRequests
    split_ifs with starts
    · rw [forall_prop_of_true starts]
      cases conf.members with
      | nil => simp
      | cons m rest => simp [@eq_comm _ none]
    · simp [starts]
  simp only [requests, mem_append, not_or, (callers_readLoop conf view).requested,
    floorRequests_callers, bridgeRequests_callers, record, not_false_eq_true, true_and, and_true]

end Pass

/-- Every pass of the run asks for channels of callers only. -/
def SessionsRequested (conf : RecordedConference) (steps : List RecordedStep) : Prop :=
  ∀ done view, done ++ [.pass view] <+: steps → none ∉ (run step conf done).requests view

/-- The automatic recording starts only while every listed member has a session. -/
def CallersOnly (conf : RecordedConference) : RecordedStep → Prop
  | .pass _ => conf.recordingStarts → ∀ m ∈ conf.members, m.session ≠ none
  | _ => True

/-- **No pass of a run asks for the channel of a member without a session** exactly when the automatic
recording never starts while one is listed. -/
theorem sessions_requested_iff (conf : RecordedConference) (steps : List RecordedStep) :
    SessionsRequested conf steps ↔ Along step CallersOnly conf steps := by
  rw [along_iff_splits]
  constructor
  · intro requested done a begins
    cases a with
    | pass view => exact (pass_requests_iff _ view).mp (requested done view begins)
    | _ => trivial
  · intro along done view begins
    exact (pass_requests_iff _ view).mpr (along done _ begins)

/-- A manual recording is listed when the second caller comes: the automatic one asks for its channel. -/
theorem manual_recording_first :
    ¬ SessionsRequested ⟨[], none, 0, true, 0, 0, 2, false, false, false, false⟩
      [.join 1 1 false ⟨true, false, 0⟩, .record 2 false ⟨true, false, 0⟩,
        .join 3 2 false ⟨true, false, 0⟩, .pass ⟨fun _ => true, fun _ => false⟩] := by
  intro requested
  exact requested [_, _, _] _ (prefix_refl _) (by decide)

end FreeSwitch
