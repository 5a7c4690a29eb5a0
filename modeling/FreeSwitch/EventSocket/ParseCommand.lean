/-
**The commands of the event socket.**

`parse_command`, one definition for each command in the order of the source, and `parseCommand`,
which tries them. A packet is an event whose first `Command` header is the text of the packet; it
may not have one, and `parse_command` may not return at all, where `auth_api_command` does not.
-/

import FreeSwitch.EventSocket.Listener

namespace FreeSwitch

open CString

/-- The listener that `parse_command` leaves, what it did elsewhere, the reply, and whether it
returned `SWITCH_STATUS_SUCCESS`. -/
structure Outcome where
  listener : Listener
  effects : List Effect
  reply : Text
  ok : Bool

/-- `sizeof(reply)`. -/
def replyLen : Nat := 512

variable (env : Env) (l : Listener)

/-- The label `done`: an empty reply becomes an error. -/
def Outcome.done (reply : Text) (effects : List Effect) : Outcome :=
  let reply := snprintf replyLen reply
  ⟨l, effects, if reply = [] then "-ERR command not found" else reply, true⟩

/-- The label `done`, with no reply written so far. -/
def Outcome.unknown (l : Listener) : Outcome := .done l [] []

/-! ### Authentication -/

def parseAuth (cmd : Text) : Outcome :=
  if env.password = (stripCr cmd).drop 5 then .done { l with authed := true } "+OK accepted" []
  else .done { l with running := false } "-ERR invalid" []

/-- User, domain and password of `user@domain:password` or `user:password@domain`. -/
def userauthParts (cmd : Text) : Text × Option Text × Option Text :=
  let user := cut '@' ((stripCr cmd).drop 9)
  let domain := user.2.map fun rest => (cut ':' rest).1
  let pass := user.2.bind fun rest => (cut ':' rest).2
  let own := cut ':' user.1
  (own.1, domain, own.2.or pass)

/-- The parameters `userauth` reads from a directory entry. -/
structure UserParams where
  passwd : Option Text
  allowedLog : Bool
  allowedEvents : Option Text
  allowedApi : Option Text

def readParam (params : UserParams) (param : Text × Text) : UserParams :=
  if ciEq param.1 "esl-password" then { params with passwd := some param.2 }
  else if ciEq param.1 "esl-allowed-log" then
    { params with allowedLog := switchTrue (some param.2) }
  else if ciEq param.1 "esl-allowed-events" then { params with allowedEvents := some param.2 }
  else if ciEq param.1 "esl-allowed-api" then { params with allowedApi := some param.2 }
  else params

def userParams (entry : UserEntry) : UserParams :=
  (entry.domain ++ entry.group ++ entry.user).foldl readParam ⟨none, true, none, none⟩

/-- Set every type below `SWITCH_EVENT_ALL`. -/
def setAllTypes (list : EventType → Bool) (value : Bool) : EventType → Bool :=
  fun type => if type = .all then list type else value

/-- One name of the allowed events; behind `CUSTOM` every name is a subclass. -/
def grantEvent (state : Listener × Bool) (cur : Text) : Listener × Bool :=
  let l := state.1
  if state.2 then
    ({ l with allowedEventHash := l.allowedEventHash.map fun hash => cur :: hash }, true)
  else
    match nameEvent cur with
    | some type =>
      let l := if type = .all then
          { l with
            allEventsAuthed := true
            allowedEventList := setAllTypes l.allowedEventList true }
        else l
      ({ l with allowedEventList := Function.update l.allowedEventList type true },
        decide (type = .custom))
    | none => (l, false)

def grantEvents (allowed : Option Text) : Listener :=
  match allowed with
  | some names =>
    ((nameTokens names).foldl grantEvent
      ({ l with authEvents := true, allowedEventHash := some [] }, false)).1
  | none => l

def grantApi (allowed : Option Text) : Listener :=
  match allowed with
  | some names => { l with allowedApiHash := some (nameTokens names) }
  | none => l

/-- The password of `userauth` is the user's, and neither is empty. -/
def userPasswordMatches (params : UserParams) (pass : Option Text) : Bool :=
  params.passwd.getD [] != [] && pass.getD [] != [] && params.passwd == pass

/-- The reply to a successful `userauth`. -/
def userauthReply (params : UserParams) : Text :=
  let line (label : String) (value : Option Text) : Text :=
    snprintf 512 (label.toList ++ value.getD "all".toList ++ ['\n'])
  "~Reply-Text: +OK accepted\n".toList ++ line "Allowed-Events: " params.allowedEvents ++
    line "Allowed-API: " params.allowedApi ++ "Allowed-LOG: ".toList ++
    (if params.allowedLog then "true".toList else "false".toList) ++ "\n\n".toList

def userauthGrant (params : UserParams) : Listener :=
  let l := grantEvents l params.allowedEvents
  let l := { l with allowLog := l.allowLog || params.allowedLog }
  { grantApi l params.allowedApi with authed := true }

def parseUserauth (cmd : Text) : Outcome :=
  let l := { l with allowLog := false }
  let parts := userauthParts cmd
  let refused := Outcome.done { l with running := false } "-ERR invalid" []
  if parts.1 = [] ∨ parts.2.1.getD [] = [] then refused
  else
    match env.locateUser parts.1 (parts.2.1.getD []) with
    | none => refused
    | some entry =>
      let params := userParams entry
      if userPasswordMatches params parts.2.2 then
        .done (userauthGrant l params) (userauthReply params) []
      else refused

/-! ### Filters -/

/-- The label of a filter in a reply: `%s`. -/
def printText (s : Option Text) : Text := s.getD "(null)"

def parseFilter (cmd : Text) : Outcome :=
  let line := cut ' ' (skipSpaces (stripCr (cmd.drop 7)))
  let filters := l.filters.getD { eventCreatePlain .clone with uniqHeaders := false }
  match line.2 with
  | none => .done { l with filters := some filters } "-ERR invalid syntax" []
  | some rest =>
    let inner := cut ' ' rest
    if ciEq line.1 "delete" then
      let filters := if ciEq inner.1 "all" then eventCreatePlain .clone
        else (eventDelHeaderVal filters inner.1 inner.2).1
      .done { l with filters := some filters }
        ("+OK filter deleted. [" ++ inner.1 ++ "][" ++ inner.2.getD [] ++ [']']) []
    else
      let name := if ciEq line.1 "add" then inner.1 else line.1
      let value := if ciEq line.1 "add" then inner.2 else some rest
      .done { l with filters := some (eventAddHeaderString filters Stack.bottom name value) }
        ("+OK filter added. [" ++ name ++ "]=[" ++ printText value ++ [']']) []

/-! ### Commands of a session -/

def parseResume (session : Text) : Outcome :=
  .done { l with resume := true } "+OK"
    [.setVariable session "socket_resume" "true"]

/-- `connect`: the reply is the channel data event. -/
def parseConnect (session : Text) : Outcome :=
  let add (event : Event) (name value : String) : Event :=
    eventAddHeaderString event Stack.bottom name.toList (some value.toList)
  let event := add (env.channelData session) "Content-Type" "command/reply"
  let event := add event "Reply-Text" "+OK\n"
  let event := add event "Socket-Mode" (if l.async then "async" else "static")
  let event := add event "Control" (if l.full then "full" else "single-channel")
  ⟨{ l with connected := true }, [.sendEvent event], [], true⟩

def parseGetvar (session : Text) (cmd : Text) : Outcome :=
  let value := (cut ' ' (stripCr cmd)).2.bind fun arg => env.channelVariable session arg
  .done l (value.getD []) []

/-- The types `myevents` subscribes to. -/
def myEventTypes : List EventType :=
  [.channelAnswer, .channelApplication, .channelBridge, .channelCreate, .channelData,
    .channelDestroy, .channelExecute, .channelExecuteComplete, .channelHangup,
    .channelHangupComplete, .channelOriginate, .channelUuid, .channelOutgoing, .channelPark,
    .channelProgress, .channelProgressMedia, .channelState, .channelUnbridge, .channelUnpark,
    .detectedSpeech, .dtmf, .notalk, .talk]

/-- Subscribe to the types of `myevents`, and take the format from the text. -/
def enableMyevents (cmd : Text) : Listener :=
  let l := { l with
    eventList := fun type => myEventTypes.contains type || l.eventList type
    myevents := true
    events := true }
  let l := if (strstr "xml" cmd).isSome || (strstr "XML" cmd).isSome then
    { l with format := .xml } else l
  if (strstr "json" cmd).isSome || (strstr "JSON" cmd).isSome then
    { l with format := .json } else l

/-- `myevents`. Without a session the text names one; where it is not found, and nothing follows the
name, the command goes on without. -/
def parseMyevents (cmd : Text) : Outcome :=
  if l.myevents then .done l "-ERR aready enabled." []
  else
    let enabled := fun (l : Listener) (cmd : Text) =>
      Outcome.done (enableMyevents l cmd) "+OK Events Enabled" []
    match l.session with
    | some _ => enabled l cmd
    | none =>
      let uuid := cut ' ' (stripCr (cmd.drop 9))
      let found := env.sessionLocate uuid.1
      if !found && uuid.2.isSome then .done l "-ERR invalid uuid" []
      else
        enabled
          { l with
            session := if found then some uuid.1 else none
            sessionFlag := true
            async := true }
          (cmd.take 9 ++ uuid.1)

def commandRest (s : Text) : Option Text :=
  match skipSpaces s with
  | '\r' :: _ => none
  | '\n' :: _ => none
  | s => some (stripCr s)

def parseDivertEvents (cmd : Text) : Outcome :=
  match l.session with
  | none => .done l "-ERR not controlling a session." []
  | some session =>
    match commandRest (cmd.drop 13) with
    | some (c :: onoff) =>
      if ciEq (c :: onoff) "on" then
        .done l "+OK events diverted" [.divertEvents session true]
      else .done l "+OK events not diverted" [.divertEvents session false]
    | _ => .done l "-ERR missing value." []

variable (packet : Event)

/-- The `Command` header once its text has been cut. -/
def setCommand (cmd : Text) : Event :=
  { packet with
    headers := packet.headers.modify (Header.hasName "command")
      fun h => { h with value := some cmd } }

def queuePrivate (session : Text) (packet : Event) : Outcome :=
  if env.queuePrivateEvent session then
    .done l "+OK" [.queuePrivateEvent session { packet with eventId := .privateCommand }]
  else { Outcome.done l "-ERR memory error" [] with ok := false }

/-- `sendmsg`, to the session named behind the command or in the `session-id` header, or the
listener's own. -/
def parseSendmsg (cmd : Text) : Outcome :=
  let async := l.async || switchTrue (eventGetHeader packet "async")
  let named := commandRest (cmd.drop 7)
  -- the text is cut inside the packet
  let packet := named.elim packet fun rest =>
    setCommand packet (cmd.take (cmd.length - (skipSpaces (cmd.drop 7)).length) ++ rest)
  let uuid := if named.getD [] = [] then eventGetHeader packet "session-id" else named
  let uuid := if uuid.isSome ∧ uuid = l.session then none else uuid
  match l.session, uuid.getD [] with
  | some session, [] =>
    if async then queuePrivate env l session packet
    else .done l "+OK" [.parseEvent session packet]
  | _, [] => .done l ("-ERR invalid session id [" ++ uuid.getD [] ++ [']']) []
  | _, c :: cs =>
    if env.sessionLocate (c :: cs) then queuePrivate env l (c :: cs) packet
    else .done l ("-ERR invalid session id [" ++ (c :: cs) ++ [']']) []

def parseSendevent (cmd : Text) : Outcome :=
  let event := eventAddHeaderString packet Stack.bottom "Event-UUID" (some env.uuid)
  let event := setCommand event (stripCr cmd)
  let ename := ((stripCr cmd).drop 9).dropWhile fun c => c = '\t' || c = ' '
  let event := match nameEvent ename with
    | some etype =>
      let subclass := eventGetHeader event "Event-Subclass"
      let event := { event with eventId := etype }
      match etype, subclass with
      | .custom, some name =>
        let event := eventDelHeader { event with subclassName := some name } "Event-Subclass"
        eventAddHeaderString event Stack.bottom "Event-Subclass" (some name)
      | _, _ => event
    | none => event
  let reply := "+OK " ++ env.uuid
  match eventGetHeader event "unique-id" with
  | some uuid =>
    if env.sessionLocate uuid && env.queueEvent uuid then .done l reply [.queueEvent uuid event]
    else .done l reply [.fire (eventPrepForDelivery env.delivery event)]
  | none => .done l reply [.fire (eventPrepForDelivery env.delivery event)]

/-! ### API commands -/

def uuidFormattedLength : Nat := 256

/-- The check of a command, if the listener is restricted; `none` if it does not return. -/
def apiAllowed (apiCmd : Text) : Option Bool :=
  let line := cut ' ' apiCmd
  l.allowedApiHash.elim (some true) fun hash => authApiCommand hash line.1 line.2

def Outcome.denied (l : Listener) : Outcome := .done l "-ERR permission denied" []

/-- `api`. The check is on the command up to its first space, also where the whole line goes to the
console. -/
def parseApi (cmd : Text) : Option Outcome :=
  let apiCmd := stripCr (cmd.drop 4)
  (apiAllowed l apiCmd).map fun ok =>
    if !ok then .denied l
    else
      let acs : ApiCommand :=
        if switchTrue (eventGetHeader packet "console_execute") then
          ⟨apiCmd, none, [], false, true⟩
        else ⟨(cut ' ' apiCmd).1, (cut ' ' apiCmd).2, [], false, false⟩
      ⟨l, if l.running && env.readLock then apiExec env acs else [], [], true⟩

/-- `bgapi`. The command is executed on a thread of its own. -/
def parseBgapi (cmd : Text) : Option Outcome :=
  let apiCmd := stripCr (cmd.drop 6)
  (apiAllowed l apiCmd).map fun ok =>
    if !ok then .denied l
    else
      let uuid := snprintf (uuidFormattedLength + 1)
        ((eventGetHeader packet "job-uuid").getD env.uuid)
      let acs : ApiCommand := ⟨(cut ' ' apiCmd).1, (cut ' ' apiCmd).2, uuid, true, false⟩
      ⟨l, if env.readLock then apiExec env acs else [],
        snprintf replyLen ("~Reply-Text: +OK Job-UUID: " ++ uuid ++
          "\nJob-UUID: " ++ uuid ++ "\n\n"), true⟩

/-! ### Logging and lingering -/

/-- `flush_listener`: both queues are emptied, whichever one is asked for. -/
def flushListener (l : Listener) : Listener := { l with eventQueue := [] }

def parseLog (cmd : Text) : Outcome :=
  if !l.allowLog then .denied l
  else
    let levelS := ((stripCr cmd).drop 3).drop 1
    let ltype := if levelS = [] then 7 else logStr2level levelS
    if ltype = logInvalid then .done l "-ERR invalid log level" []
    else
      .done { l with level := ltype, log := true }
        ("+OK log level " ++ levelS ++ " [" ++ printInt ltype ++ [']']) []

/-- The time behind `linger`; `-1` where there is none. -/
def lingerTime (cmd : Text) : Int :=
  match cmd.drop 6 with
  | ' ' :: c :: rest => atoi (c :: rest)
  | _ => -1

def parseLinger (cmd : Text) : Outcome :=
  if l.session.isNone then .done l "-ERR not controlling a session" []
  else
    let time := lingerTime cmd
    .done { l with lingerTimeout := time, linger := true }
      (if time = -1 then "+OK will linger"
        else "+OK will linger " ++ printInt time ++ " seconds") []

def parseNolinger (l : Listener) : Outcome :=
  if l.session.isNone then .done l "-ERR not controlling a session" []
  else .done { l with linger := false } "+OK will not linger" []

def parseNolog (l : Listener) : Outcome :=
  if l.log then .done { flushListener l with log := false } "+OK no longer logging" []
  else .done (flushListener l) "-ERR not loging" []

/-! ### Subscriptions -/

/-- The words of `event` and `nixevent`: those behind the first space. -/
def eventWords (cmd : Text) : List Text :=
  (cut ' ' ((stripCr cmd).drop 5)).2.elim [] fun words => words.splitOn ' '

def str2format (s : Text) : Option EventFormat :=
  if ciEq s "xml" then some .xml
  else if ciEq s "plain" then some .plain
  else if ciEq s "json" then some .json
  else none

def subscribeType (type : EventType) : Listener :=
  let list := if type = .all then setAllTypes l.eventList true else l.eventList
  { l with eventList := Function.update list type true }

def typeAllowed (type : EventType) : Bool :=
  !l.authEvents || l.allowedEventList type || l.allEventsAuthed

def subclassAllowed (name : Text) : Bool :=
  l.allowedEventHash.elim true fun hash => hash.contains name

/-- The loop of `event` over its words, with the types so far; behind `CUSTOM` every word is a
subclass. A word that is not allowed ends it, with what was subscribed to before. -/
def subscribeLoop (l : Listener) (custom : Bool) (keys : Nat) : List Text → Listener × Option Nat
  | [] => (l, some keys)
  | cur :: rest =>
    if custom then
      if subclassAllowed l cur then
        subscribeLoop { l with eventHash := cur :: l.eventHash } true keys rest
      else (l, none)
    else
      match nameEvent cur with
      | some type =>
        if typeAllowed l type then
          subscribeLoop (subscribeType l type) (decide (type = .custom)) (keys + 1) rest
        else (l, none)
      | none => subscribeLoop l false keys rest

def parseEvent (cmd : Text) : Outcome :=
  let words := eventWords cmd
  let format := words.head?.bind str2format
  let loop := subscribeLoop { l with format := format.getD l.format } false 0
    (if format.isSome then words.tail else words)
  match loop.2 with
  | none => .denied loop.1
  | some 0 => .done loop.1 "-ERR no keywords supplied" []
  | some (_ + 1) =>
    .done { loop.1 with events := true }
      ("+OK event listener enabled " ++ format2str loop.1.format) []

/-- End the subscription to a type: `ALL` is first spelled out. -/
def nixType (list : EventType → Bool) (type : EventType) : EventType → Bool :=
  if type = .all then fun _ => false
  else
    let list := if list .all then Function.update (setAllTypes list true) .all false else list
    Function.update list type false

/-- The loop of `nixevent` over its words. -/
def nixLoop (l : Listener) (custom : Bool) (keys : Nat) : List Text → Listener × Nat
  | [] => (l, keys)
  | cur :: rest =>
    if custom then
      nixLoop { l with eventHash := l.eventHash.filter (· != cur) } true keys rest
    else
      match nameEvent cur with
      | some .custom => nixLoop l true (keys + 1) rest
      | some type =>
        nixLoop { l with eventList := nixType l.eventList type } false (keys + 1) rest
      | none => nixLoop l false keys rest

def parseNixevent (cmd : Text) : Outcome :=
  let loop := nixLoop l false 0 (eventWords cmd)
  if loop.2 = 0 then .done loop.1 "-ERR no keywords supplied" []
  else .done { loop.1 with events := true } "+OK events nixed" []

def parseNoevents (l : Listener) : Outcome :=
  let l := flushListener l
  if l.events then
    .done { l with events := false, eventList := fun _ => false, eventHash := [] }
      "+OK no longer listening for events" []
  else .done l "-ERR not listening for events" []

/-! ### The dispatcher -/

def cheatCommand (cmd : Text) : Text :=
  if stristr "unload" cmd && stristr "mod_event_socket" cmd then
    "api bgapi unload mod_event_socket"
  else if stristr "reload" cmd && stristr "mod_event_socket" cmd then
    "api bgapi reload mod_event_socket"
  else cmd

/-- `strncasecmp(cmd, word, strlen(word)) == 0`. -/
def isCommand (word : String) (cmd : Text) : Bool := ciHasPrefix word.toList cmd

def parseUnauthed (cmd : Text) : Outcome :=
  if isCommand "auth " cmd then parseAuth env l cmd
  else if isCommand "userauth " cmd then parseUserauth env l cmd
  else .unknown l

/-- The commands that only a listener with a session has, `myevents` apart. -/
def parseSession (cmd : Text) : Option Outcome :=
  match l.session with
  | some session =>
    if isCommand "resume" cmd then some (parseResume l session)
    else if isCommand "connect" cmd then some (parseConnect env l session)
    else if isCommand "getvar" cmd then some (parseGetvar env l session cmd)
    else if isCommand "myevents" cmd then some (parseMyevents env l cmd)
    else none
  | none => if isCommand "myevents " cmd then some (parseMyevents env l cmd) else none

/-- The commands that an outbound listener needs the `full` flag for. -/
def parseFull (cmd : Text) : Option Outcome :=
  if isCommand "sendevent" cmd then some (parseSendevent env l packet cmd)
  else if isCommand "api " cmd then parseApi env l packet cmd
  else if isCommand "bgapi " cmd then parseBgapi env l packet cmd
  else if isCommand "log" cmd then some (parseLog l cmd)
  else if isCommand "linger" cmd then some (parseLinger l cmd)
  else if isCommand "nolinger" cmd then some (parseNolinger l)
  else if isCommand "nolog" cmd then some (parseNolog l)
  else if isCommand "event" cmd then some (parseEvent l cmd)
  else if isCommand "nixevent" cmd then some (parseNixevent l cmd)
  else if isCommand "noevents" cmd then some (parseNoevents l)
  else some (.unknown l)

def parseAuthed (cmd : Text) : Option Outcome :=
  if isCommand "filter " cmd then some (parseFilter l cmd)
  else
    match parseSession env l cmd with
    | some out => some out
    | none =>
      if isCommand "divert_events" cmd then some (parseDivertEvents l cmd)
      else if isCommand "sendmsg" cmd then some (parseSendmsg env l packet cmd)
      else if l.outbound && !l.full then some (.unknown l)
      else parseFull env l packet cmd

/-- **`parse_command`**: `none` if it does not return. -/
def parseCommand (packet : Option Event) : Option Outcome :=
  match packet.bind fun event => (eventGetHeader event "command").map (event, ·) with
  | none => some (.done { l with running := false } "-ERR command parse error." [])
  | some (packet, text) =>
    let cmd := cheatCommand text
    if isCommand "exit" cmd || isCommand "..." cmd then
      some (.done { l with running := false } "+OK bye" [])
    else if l.authed then parseAuthed env l packet cmd
    else some (parseUnauthed env l cmd)

end FreeSwitch
