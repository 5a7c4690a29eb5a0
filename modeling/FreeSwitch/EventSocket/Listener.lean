/-
**An event socket listener.**

The record `listener_t` with its flags, what a command can ask of the rest of the switch (`Env`),
what it can do outside the listener (`Effect`), and the small functions the commands share.
-/

import FreeSwitch.Event.Copy
import FreeSwitch.EventSocket.ApiAuth
import FreeSwitch.EventSocket.Console
import FreeSwitch.Utils.Truth

namespace FreeSwitch

open CString

/-- `event_format_t`. -/
inductive EventFormat
  | plain
  | xml
  | json
  deriving DecidableEq, Repr

def format2str : EventFormat → Text
  | .plain => "plain"
  | .xml => "xml"
  | .json => "json"

/-- `listener_t`, with the flags `LFLAG_*` as Boolean fields, and a session by its uuid. -/
structure Listener where
  authed : Bool
  running : Bool
  events : Bool
  log : Bool
  full : Bool
  myevents : Bool
  sessionFlag : Bool
  async : Bool
  outbound : Bool
  linger : Bool
  connected : Bool
  resume : Bool
  authEvents : Bool
  allEventsAuthed : Bool
  allowLog : Bool
  format : EventFormat
  level : Int
  eventList : EventType → Bool
  allowedEventList : EventType → Bool
  eventHash : List Text
  allowedEventHash : Option (List Text)
  allowedApiHash : Option (List Text)
  session : Option Text
  filters : Option Event
  lingerTimeout : Int
  expireTime : Nat
  eventQueue : List Event

/-- The listener of a new inbound connection, as `mod_event_socket_runtime` makes it. -/
def inboundListener : Listener where
  authed := false
  running := false
  events := false
  log := false
  full := true
  myevents := false
  sessionFlag := false
  async := false
  outbound := false
  linger := false
  connected := false
  resume := false
  authEvents := false
  allEventsAuthed := false
  allowLog := true
  format := .plain
  level := 0
  eventList := fun _ => false
  allowedEventList := fun _ => false
  eventHash := []
  allowedEventHash := none
  allowedApiHash := none
  session := none
  filters := none
  lingerTimeout := 0
  expireTime := 0
  eventQueue := []

/-- The `params` of a user's domain, group and own entry, as names and values. -/
structure UserEntry where
  domain : List (Text × Text)
  group : List (Text × Text)
  user : List (Text × Text)

structure Env where
  /-- `prefs.password`. -/
  password : Text
  /-- `switch_xml_locate_user`, by user and domain. -/
  locateUser : Text → Text → Option UserEntry
  /-- `switch_core_session_locate` finds the session. -/
  sessionLocate : Text → Bool
  /-- `switch_channel_get_variable`, by session and name. -/
  channelVariable : Text → Text → Option Text
  channelData : Text → Event
  uuid : Text
  /-- `switch_core_session_queue_event` succeeds. -/
  queueEvent : Text → Bool
  /-- `switch_core_session_queue_private_event` succeeds. -/
  queuePrivateEvent : Text → Bool
  /-- `switch_thread_rwlock_tryrdlock` succeeds on the listener's lock. -/
  readLock : Bool
  console : ConsoleWorld
  delivery : Delivery

instance : Inhabited Env where
  default :=
    { password := "ClueCon"
      locateUser := fun _ _ => none
      sessionLocate := fun _ => false
      channelVariable := fun _ _ => none
      channelData := fun _ => eventCreatePlain .channelData
      uuid := []
      queueEvent := fun _ => false
      queuePrivateEvent := fun _ => false
      readLock := true
      console := ⟨fun _ _ => none, fun _ => (false, [])⟩
      delivery := default }

inductive Effect
  | apiExecute (call : ApiCall)
  | send (text : Text)
  | sendEvent (e : Event)
  | fire (e : Event)
  | queueEvent (uuid : Text) (e : Event)
  | queuePrivateEvent (uuid : Text) (e : Event)
  | parseEvent (uuid : Text) (e : Event)
  | setVariable (uuid name value : Text)
  | divertEvents (uuid : Text) (on : Bool)

/-! ### Texts -/

def logInvalid : Int := 64

def logLevels : List Text :=
  ["CONSOLE", "ALERT", "CRIT", "ERR", "WARNING", "NOTICE", "INFO", "DEBUG"].map String.toList

def logStr2level (s : Text) : Int :=
  if isNumber s then
    if atoi s > logInvalid then logInvalid - 1 else if atoi s < 0 then 0 else atoi s
  else
    let x := logLevels.findIdx fun name => ciEq name s
    if x < logLevels.length then x else logInvalid

def nameTokens (s : Text) : List Text := if ' ' ∈ s then s.splitOn ' ' else s.splitOn ','

/-! ### Packets -/

/-- What follows the first line: it ends at the first `\r` of all that is left, or else the first
`\n`, and all line ends right behind are skipped. -/
def nextLine (s : Text) : Option Text :=
  ((if '\r' ∈ s then cut '\r' s else cut '\n' s).2).map
    fun rest => rest.dropWhile fun c => c = '\r' || c = '\n'

theorem nextLine_length {s next : Text} (follows : nextLine s = some next) :
    next.length < s.length := by
  obtain ⟨rest, found, rfl⟩ := Option.map_eq_some_iff.mp follows
  have shorter : rest.length < s.length := by
    split at found
    all_goals exact cut_length _ _ _ found
  exact Nat.lt_of_le_of_lt (List.length_dropWhile_le _ _) shorter

def packetLines (s : Text) : List Text :=
  stripCr s :: match _found : nextLine s with
    | some next => packetLines next
    | none => []
termination_by s.length
decreasing_by exact nextLine_length (by assumption)

/-- A header line; `receive` reads that many bytes of a body. -/
def packetHeader (receive : Nat → Text) (event : Event) (line : Text) : Event :=
  match cut ':' line with
  | (var, some val) =>
    let val := skipSpaces val
    let event := eventAddHeaderString event Stack.bottom var (some val)
    if ciEq var "content-length" ∧ 0 < atoi val then
      { event with body := some (receive (atoi val).toNat) }
    else event
  | (_, none) => event

/-- The event that `read_packet` makes of a text: the whole text is its command, and the lines
behind the first are its headers. -/
def packetEvent (receive : Nat → Text) (mbuf : Text) : Event :=
  (packetLines mbuf).tail.foldl (packetHeader receive)
    (eventAddHeaderString (eventAlloc .clone) Stack.bottom "Command" (some mbuf))

def packetOf (lines : List String) : Event :=
  packetEvent (fun _ => []) (lines.flatMap (fun line => line.toList ++ ['\n']) ++ ['\n'])

/-! ### Events for a listener -/

def filterSign : Bool → Text → Bool × Text
  | _, '+' :: s => filterSign true s
  | _, '-' :: s => filterSign false s
  | pos, ' ' :: s => filterSign pos s
  | pos, s => (pos, s)

/-- The loop of `event_handler` over the filters, with `send` so far. A positive filter is skipped
once one has matched, and a negative one that matches ends the loop. -/
def filterLoop (regex : Text → Text → Bool) (event : Event) : List Header → Bool → Bool
  | [], send => send
  | hp :: hps, send =>
    match eventGetHeader event hp.name, hp.value with
    | some hval, some value =>
      let pos := (filterSign true value).1
      let compTo := (filterSign true value).2
      if send && pos then filterLoop regex event hps send
      else
        let cmp := if value.head? = some '/' then regex hval compTo else ciEq hval compTo
        if cmp then if pos then filterLoop regex event hps true else false
        else filterLoop regex event hps send
    | _, _ => filterLoop regex event hps send

def subscribed (l : Listener) (event : Event) : Bool :=
  l.eventList .all ||
    l.eventList event.eventId &&
      (event.eventId != .custom || event.subclassName.elim true fun name => l.eventHash.contains name)

variable (regex : Text → Text → Bool)

def filtersPass (l : Listener) (event : Event) : Bool :=
  l.filters.elim true fun filters =>
    filters.list.isEmpty || filterLoop regex event filters.list false

/-- Whether the event belongs to the session that `myevents` has chosen. -/
def ownEvent (l : Listener) (event : Event) : Bool :=
  (eventGetHeader event "unique-id").elim false fun uuid =>
    l.session.elim true fun own => uuid == own

/-- `event_handler` sends the event to the listener. -/
def eventHandlerSends (l : Listener) (event : Event) : Bool :=
  l.expireTime == 0 && l.events && subscribed l event && filtersPass regex l event &&
    (!l.myevents || ownEvent l event)

/-- `event_handler` for one listener: a copy of the event is queued if there is `room`. -/
def eventHandler (room : Bool) (event : Event) (l : Listener) : Listener :=
  if eventHandlerSends regex l event && room then
    { l with eventQueue := l.eventQueue ++ [eventDup event] }
  else l

/-! ### Executing an API command -/

/-- `struct api_command_struct`. -/
structure ApiCommand where
  apiCmd : Text
  arg : Option Text
  uuid : Text
  bg : Bool
  consoleExecute : Bool

def apiRun (world : ConsoleWorld) (acs : ApiCommand) : List ApiCall × Bool × Text :=
  if acs.consoleExecute then
    let done := consoleExecute world acs.apiCmd 0 ⟨0, [], []⟩
    (done.1.calls, done.2, done.1.stream)
  else
    let call : ApiCall := ⟨acs.apiCmd, acs.arg⟩
    ([call], world.api [call])

def backgroundJob (delivery : Delivery) (acs : ApiCommand) (reply : Text) : Option Event :=
  (eventCreateSubclass delivery .backgroundJob none).map fun event =>
    let event := eventAddHeaderString event Stack.bottom "Job-UUID" (some acs.uuid)
    let event := eventAddHeaderString event Stack.bottom "Job-Command" (some acs.apiCmd)
    let event := eventAddHeaderString event Stack.bottom "Job-Command-Arg" acs.arg
    { event with body := some reply }

/-- `api_exec` with the listener's lock: the calls, then the reply, to the socket or as an event. -/
def apiExec (env : Env) (acs : ApiCommand) : List Effect :=
  let run := apiRun env.console acs
  let reply := if run.2.1 then run.2.2
    else "-ERR " ++ acs.apiCmd ++ " Command not found!\n"
  run.1.map Effect.apiExecute ++
    if acs.bg then ((backgroundJob env.delivery acs reply).map Effect.fire).toList
    else
      let reply := if reply = [] then "-ERR no reply\n".toList else reply
      [.send (snprintf 1024 ("Content-Type: api/response\nContent-Length: " ++
        printInt reply.length ++ "\n\n")), .send reply]

end FreeSwitch
