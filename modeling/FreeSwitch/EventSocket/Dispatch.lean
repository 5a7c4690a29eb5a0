/-
**What a command can do.**

Most commands make no API calls and leave alone what the user was granted and what the listener has
subscribed to (`Plain`). The others are the two that make calls, the four that write the
subscriptions, and those of a listener that is not authenticated.

* `parseCommand_dispatched`: every packet is one of these;
* `parseCommand_eq_parseFull`, `parseCommand_eq_parseMyevents`: a packet that is such a command is
  executed as one.
-/

import FreeSwitch.EventSocket.ParseCommand

namespace FreeSwitch

open CString Option

/-! ### Which command is tried -/

def Unrelated (word other : String) : Prop :=
  ciHasPrefix word.toList other.toList = false ∧ ciHasPrefix other.toList word.toList = false

instance (word other : String) : Decidable (Unrelated word other) :=
  inferInstanceAs (Decidable (_ ∧ _))

variable {env : Env} {packet : Event} {l : Listener} {cmd : Text}

theorem isCommand_unrelated {word other : String} (is : isCommand word cmd = true)
    (apart : Unrelated word other) : isCommand other cmd = false := by
  refine Bool.eq_false_iff.mpr fun also => ?_
  rcases ciHasPrefix_comparable is also with h | h
  · exact absurd h (Bool.eq_false_iff.mp apart.1)
  · exact absurd h (Bool.eq_false_iff.mp apart.2)

def commandText (packet : Event) : Option Text :=
  (eventGetHeader packet "command").map cheatCommand

theorem parseCommand_some (named : commandText packet = some cmd) :
    parseCommand env l (some packet) =
      if isCommand "exit" cmd || isCommand "..." cmd then
        some (.done { l with running := false } "+OK bye" [])
      else if l.authed then parseAuthed env l packet cmd
      else some (parseUnauthed env l cmd) := by
  obtain ⟨text, header, rfl⟩ := map_eq_some_iff.mp named
  simp only [parseCommand, bind_some, header, map_some]

theorem parseCommand_none {packet : Option Event} (unnamed : packet.bind commandText = none) :
    parseCommand env l packet =
      some (.done { l with running := false } "-ERR command parse error." []) := by
  have header : (packet.bind fun event =>
      (eventGetHeader event "command").map (event, ·)) = none := by
    cases packet with
    | none => rfl
    | some event =>
      rw [bind_some, map_eq_none_iff]
      exact map_eq_none_iff.mp unnamed
  unfold parseCommand
  rw [header]

/-- The words that are tried before those of `parseFull`. -/
def earlierCommands : List String :=
  ["exit", "...", "filter ", "resume", "connect", "getvar", "myevents", "myevents ", "divert_events",
    "sendmsg"]

theorem parseCommand_eq_parseFull {word : String} (named : commandText packet = some cmd)
    (is : isCommand word cmd = true) (apart : ∀ other ∈ earlierCommands, Unrelated word other)
    (authed : l.authed = true) (full : (l.outbound && !l.full) = false) :
    parseCommand env l (some packet) = parseFull env l packet cmd := by
  have not : ∀ other ∈ earlierCommands, isCommand other cmd = false := fun other member =>
    isCommand_unrelated is (apart other member)
  simp only [earlierCommands, List.forall_mem_cons] at not
  obtain ⟨exit, dots, filter, resume, connect, getvar, myevents, myevents', divert, sendmsg, -⟩ := not
  have session : parseSession env l cmd = none := by
    unfold parseSession
    cases l.session <;> simp [resume, connect, getvar, myevents, myevents']
  rw [parseCommand_some named]
  simp [exit, dots, authed, parseAuthed, filter, session, divert, sendmsg, full]

/-- `myevents` for this listener: without a session the word needs its space. -/
def isMyevents (l : Listener) (cmd : Text) : Bool :=
  isCommand (if l.session.isSome then "myevents" else "myevents ") cmd

theorem parseCommand_eq_parseMyevents (named : commandText packet = some cmd)
    (is : isMyevents l cmd = true) (authed : l.authed = true) :
    parseCommand env l (some packet) = some (parseMyevents env l cmd) := by
  have not : ∀ other ∈ ["exit", "...", "filter ", "resume", "connect", "getvar"],
      isCommand other cmd = false := by
    intro other member
    refine isCommand_unrelated is ?_
    cases l.session.isSome
    · exact (by decide : ∀ other ∈ ["exit", "...", "filter ", "resume", "connect", "getvar"],
        Unrelated "myevents " other) other member
    · exact (by decide : ∀ other ∈ ["exit", "...", "filter ", "resume", "connect", "getvar"],
        Unrelated "myevents" other) other member
  simp only [List.forall_mem_cons] at not
  obtain ⟨exit, dots, filter, resume, connect, getvar, -⟩ := not
  have session : parseSession env l cmd = some (parseMyevents env l cmd) := by
    unfold isMyevents at is
    unfold parseSession
    cases found : l.session with
    | none => rw [found] at is; simp_all
    | some session => rw [found] at is; simp_all
  rw [parseCommand_some named]
  simp [exit, dots, authed, parseAuthed, filter, session]

/-! ### Commands that touch neither the calls nor the subscriptions -/

def Effect.call? : Effect → Option ApiCall
  | .apiExecute call => some call
  | _ => none

def Outcome.calls (out : Outcome) : List ApiCall := out.effects.filterMap Effect.call?

structure Grants where
  authed : Bool
  authEvents : Bool
  allEventsAuthed : Bool
  allowedEventList : EventType → Bool
  allowedEventHash : Option (List Text)
  allowedApiHash : Option (List Text)

def Listener.grants (l : Listener) : Grants :=
  ⟨l.authed, l.authEvents, l.allEventsAuthed, l.allowedEventList, l.allowedEventHash,
    l.allowedApiHash⟩

/-- An outcome with no calls, the same grants and the same subscriptions. -/
structure Plain (l : Listener) (out : Outcome) : Prop where
  calls : out.calls = []
  grants : out.listener.grants = l.grants
  eventList : out.listener.eventList = l.eventList

section Plain

variable (env l packet cmd)

theorem plain_filter : Plain l (parseFilter l cmd) := by
  unfold parseFilter
  simp only
  repeat' split
  all_goals exact ⟨rfl, rfl, rfl⟩

theorem plain_divertEvents : Plain l (parseDivertEvents l cmd) := by
  unfold parseDivertEvents
  repeat' split
  all_goals exact ⟨rfl, rfl, rfl⟩

theorem plain_queuePrivate (session : Text) : Plain l (queuePrivate env l session packet) := by
  unfold queuePrivate
  split
  all_goals exact ⟨rfl, rfl, rfl⟩

theorem plain_sendmsg : Plain l (parseSendmsg env l packet cmd) := by
  unfold parseSendmsg
  simp only
  repeat' split
  all_goals first
    | exact plain_queuePrivate env _ l _
    | exact ⟨rfl, rfl, rfl⟩

theorem plain_sendevent : Plain l (parseSendevent env l packet cmd) := by
  unfold parseSendevent
  simp only
  split
  · split
    all_goals exact ⟨rfl, rfl, rfl⟩
  · exact ⟨rfl, rfl, rfl⟩

theorem plain_log : Plain l (parseLog l cmd) := by
  unfold parseLog
  simp only
  repeat' split
  all_goals exact ⟨rfl, rfl, rfl⟩

theorem plain_linger : Plain l (parseLinger l cmd) := by
  unfold parseLinger
  simp only
  split
  all_goals exact ⟨rfl, rfl, rfl⟩

theorem plain_nolinger : Plain l (parseNolinger l) := by
  unfold parseNolinger
  split
  all_goals exact ⟨rfl, rfl, rfl⟩

theorem plain_nolog : Plain l (parseNolog l) := by
  unfold parseNolog
  split
  all_goals exact ⟨rfl, rfl, rfl⟩

end Plain

/-! ### The other commands -/

/-- **The answers before authentication.** -/
inductive AuthAnswer (env : Env) (l : Listener) (cmd : Text) : Outcome → Prop
  | unknown (auth : isCommand "auth " cmd = false) (userauth : isCommand "userauth " cmd = false) :
      AuthAnswer env l cmd (.unknown l)
  | auth (is : isCommand "auth " cmd = true) (same : env.password = (stripCr cmd).drop 5) :
      AuthAnswer env l cmd (.done { l with authed := true } "+OK accepted" [])
  | userauth (is : isCommand "userauth " cmd = true) {entry : UserEntry}
      (found : env.locateUser (userauthParts cmd).1 ((userauthParts cmd).2.1.getD []) = some entry)
      (same : userPasswordMatches (userParams entry) (userauthParts cmd).2.2 = true) :
      AuthAnswer env l cmd
        (.done (userauthGrant { l with allowLog := false } (userParams entry))
          (userauthReply (userParams entry)) [])
  | refused (is : isCommand "auth " cmd = true ∨ isCommand "userauth " cmd = true) (log : Bool) :
      AuthAnswer env l cmd
        (.done { l with running := false, allowLog := log } "-ERR invalid" [])

theorem parseUnauthed_answer (env : Env) (l : Listener) (cmd : Text) :
    AuthAnswer env l cmd (parseUnauthed env l cmd) := by
  unfold parseUnauthed
  split_ifs with auth userauth
  · unfold parseAuth
    split_ifs with same
    · exact .auth auth same
    · exact .refused (.inl auth) l.allowLog
  · unfold parseUserauth
    simp only
    split_ifs with unnamed
    · exact .refused (.inr userauth) false
    · split
      next => exact .refused (.inr userauth) false
      next entry found =>
        split_ifs with same
        · exact .userauth userauth found same
        · exact .refused (.inr userauth) false
  · exact .unknown (Bool.eq_false_iff.mpr auth) (Bool.eq_false_iff.mpr userauth)

theorem AuthAnswer.effects {out : Outcome} (answer : AuthAnswer env l cmd out) :
    out.effects = [] := by
  cases answer <;> rfl

theorem parseMyevents_calls (env : Env) (l : Listener) (cmd : Text) :
    (parseMyevents env l cmd).calls = [] := by
  unfold parseMyevents
  simp only
  repeat' split
  all_goals rfl

theorem parseEvent_calls (l : Listener) (cmd : Text) : (parseEvent l cmd).calls = [] := by
  unfold parseEvent
  simp only
  split
  all_goals rfl

theorem parseNixevent_calls (l : Listener) (cmd : Text) : (parseNixevent l cmd).calls = [] := by
  unfold parseNixevent
  simp only
  split
  all_goals rfl

theorem parseNoevents_calls (l : Listener) : (parseNoevents l).calls = [] := by
  unfold parseNoevents
  simp only
  split
  all_goals rfl

/-! ### The cases of a packet -/

structure Named (packet : Option Event) (event : Event) (cmd : Text) : Prop where
  given : packet = some event
  text : commandText event = some cmd

/-- The listener may use the commands of `parseFull`. -/
structure MayFull (l : Listener) : Prop where
  authed : l.authed = true
  full : (l.outbound && !l.full) = false

/-- **The outcomes of a packet**, by what they can do. -/
inductive Dispatched (env : Env) (l : Listener) (packet : Option Event) : Outcome → Prop
  | plain {out : Outcome} (same : Plain l out) : Dispatched env l packet out
  | unauthed {event : Event} {cmd : Text} {out : Outcome} (named : Named packet event cmd)
      (closed : l.authed = false) (answer : AuthAnswer env l cmd out) : Dispatched env l packet out
  | api {event : Event} {cmd : Text} {out : Outcome} (named : Named packet event cmd)
      (may : MayFull l) (is : isCommand "api " cmd = true)
      (parsed : parseApi env l event cmd = some out) : Dispatched env l packet out
  | bgapi {event : Event} {cmd : Text} {out : Outcome} (named : Named packet event cmd)
      (may : MayFull l) (is : isCommand "bgapi " cmd = true)
      (parsed : parseBgapi env l event cmd = some out) : Dispatched env l packet out
  | myevents {event : Event} {cmd : Text} (named : Named packet event cmd)
      (authed : l.authed = true) (is : isMyevents l cmd = true) :
      Dispatched env l packet (parseMyevents env l cmd)
  | event (cmd : Text) (may : MayFull l) : Dispatched env l packet (parseEvent l cmd)
  | nixevent (cmd : Text) (may : MayFull l) : Dispatched env l packet (parseNixevent l cmd)
  | noevents (may : MayFull l) : Dispatched env l packet (parseNoevents l)

section Cases

variable {env : Env} {l : Listener} {packet : Option Event} {event : Event} {cmd : Text}
  {out : Outcome}

theorem parseFull_dispatched (named : Named packet event cmd) (may : MayFull l)
    (parsed : parseFull env l event cmd = some out) : Dispatched env l packet out := by
  unfold parseFull at parsed
  split_ifs at parsed with sendevent api bgapi log linger nolinger nolog events nixevent noevents
  · cases parsed; exact .plain (plain_sendevent env event l cmd)
  · exact .api named may api parsed
  · exact .bgapi named may bgapi parsed
  · cases parsed; exact .plain (plain_log l cmd)
  · cases parsed; exact .plain (plain_linger l cmd)
  · cases parsed; exact .plain (plain_nolinger l)
  · cases parsed; exact .plain (plain_nolog l)
  · cases parsed; exact .event cmd may
  · cases parsed; exact .nixevent cmd may
  · cases parsed; exact .noevents may
  · cases parsed; exact .plain ⟨rfl, rfl, rfl⟩

theorem parseSession_dispatched (named : Named packet event cmd) (authed : l.authed = true)
    (parsed : parseSession env l cmd = some out) : Dispatched env l packet out := by
  unfold parseSession at parsed
  split at parsed
  next session has =>
    split_ifs at parsed with resume connect getvar myevents
    · cases parsed; exact .plain ⟨rfl, rfl, rfl⟩
    · cases parsed; exact .plain ⟨rfl, rfl, rfl⟩
    · cases parsed; exact .plain ⟨rfl, rfl, rfl⟩
    · cases parsed; exact .myevents named authed (by simpa [isMyevents, has] using myevents)
  next has =>
    split_ifs at parsed with myevents
    cases parsed
    exact .myevents named authed (by simpa [isMyevents, has] using myevents)

theorem parseAuthed_dispatched (named : Named packet event cmd) (authed : l.authed = true)
    (parsed : parseAuthed env l event cmd = some out) : Dispatched env l packet out := by
  unfold parseAuthed at parsed
  cases session : parseSession env l cmd with
  | some result =>
    simp only [session] at parsed
    split_ifs at parsed with filter
    · cases parsed; exact .plain (plain_filter l cmd)
    · exact parseSession_dispatched named authed (session.trans parsed)
  | none =>
    simp only [session] at parsed
    split_ifs at parsed with filter divert sendmsg full
    · cases parsed; exact .plain (plain_filter l cmd)
    · cases parsed; exact .plain (plain_divertEvents l cmd)
    · cases parsed; exact .plain (plain_sendmsg env event l cmd)
    · cases parsed; exact .plain ⟨rfl, rfl, rfl⟩
    · exact parseFull_dispatched named ⟨authed, Bool.eq_false_iff.mpr full⟩ parsed

theorem parseCommand_dispatched (parsed : parseCommand env l packet = some out) :
    Dispatched env l packet out := by
  cases text : packet.bind commandText with
  | none =>
    rw [parseCommand_none text] at parsed
    cases parsed
    exact .plain ⟨rfl, rfl, rfl⟩
  | some cmd =>
    obtain ⟨event, rfl, named⟩ := bind_eq_some_iff.mp text
    rw [parseCommand_some named] at parsed
    split_ifs at parsed with exit authed
    · cases parsed; exact .plain ⟨rfl, rfl, rfl⟩
    · exact parseAuthed_dispatched ⟨rfl, named⟩ authed parsed
    · cases parsed
      exact .unauthed ⟨rfl, named⟩ (Bool.eq_false_iff.mpr authed) (parseUnauthed_answer env l cmd)

/-- **Before authentication** a packet ends the connection or is answered as a try. -/
theorem parseCommand_closed (env : Env) (packet : Option Event) (closed : l.authed = false) :
    ∃ out, parseCommand env l packet = some out ∧
      ((∃ reply, out = .done { l with running := false } reply []) ∨
        ∃ event cmd, Named packet event cmd ∧ AuthAnswer env l cmd out) := by
  cases text : packet.bind commandText with
  | none => exact ⟨_, parseCommand_none text, .inl ⟨_, rfl⟩⟩
  | some cmd =>
    obtain ⟨event, rfl, named⟩ := bind_eq_some_iff.mp text
    rw [parseCommand_some named]
    split_ifs with exit authed
    · exact ⟨_, rfl, .inl ⟨_, rfl⟩⟩
    · exact absurd authed (Bool.eq_false_iff.mp closed)
    · exact ⟨_, rfl, .inr ⟨event, cmd, ⟨rfl, named⟩, parseUnauthed_answer env l cmd⟩⟩

end Cases

end FreeSwitch
