/-
**The connection loop.**

`listener_run` reads packets and hands them to `parse_command`, first until one has been handled and
then for as long as the listener runs. The loop for the authentication does not repeat after a
packet: what follows is read by the main loop, whether the listener is authenticated or not.

* `no_effect_before_auth`: what a connection does before it is authenticated, and after a failed
  try;
* `rights_given_once`: who gave the rights of a listener.
-/

import FreeSwitch.EventSocket.Subscriptions

namespace FreeSwitch

open CString List Run

/-! ### The loops -/

/-- What `read_packet` returns. -/
inductive PacketRead
  | failed
  | nothing
  | packet (event : Event)

structure Round where
  env : Env
  /-- `prefs.done`. -/
  done : Bool
  /-- `listen_list.ready`. -/
  ready : Bool
  read : PacketRead

/-- Where `listener_run` is: before the first packet of an outbound connection, in the loop for
authentication, in the main loop, or at `done`. -/
inductive Phase
  | session
  | auth
  | main
  | finished
  deriving DecidableEq

/-- A packet handed to `parse_command`. -/
structure Executed where
  env : Env
  before : Listener
  packet : Event

/-- What `parse_command` did. -/
def Executed.outcome (x : Executed) : Option Outcome := parseCommand x.env x.before (some x.packet)

/-- A connection, with the packets executed and what was written about them. -/
structure Connection where
  phase : Phase
  listener : Listener
  executed : List Executed
  sent : List Text

def replyText (reply : Text) : List Text :=
  match reply with
  | [] => []
  | '~' :: rest => [snprintf 1024 ("Content-Type: command/reply\n" ++ rest)]
  | reply => [snprintf 1024 ("Content-Type: command/reply\nReply-Text: " ++ reply ++
      "\n\n")]

/-- Up to the loops. `accepted` is false where the session cannot be locked or an access list
rejects. -/
def listenerStart (l : Listener) (accepted : Bool) : Connection :=
  if !accepted then ⟨.finished, l, [], []⟩
  else if l.session.isSome && l.authed then
    ⟨.session, { l with running := true, sessionFlag := true }, [], []⟩
  else ⟨.auth, { l with running := true }, [], ["Content-Type: auth/request\n\n"]⟩

/-- Hand a packet to `parse_command`, which may not return. The first of a session is not replied
to. -/
def executePacket (c : Connection) (env : Env) (event : Event) : Connection :=
  let executed := c.executed ++ [⟨env, c.listener, event⟩]
  match parseCommand env c.listener (some event) with
  | none => { c with phase := .finished, executed := executed }
  | some out =>
    if out.ok then
      ⟨.main, out.listener, executed, c.sent ++ if c.phase = .session then [] else replyText out.reply⟩
    else ⟨.finished, { out.listener with running := false }, executed, c.sent⟩

/-- **One round.** -/
def listenerStep (c : Connection) (round : Round) : Connection :=
  match c.phase with
  | .finished => c
  | .session =>
    match round.read with
    | .packet event => executePacket c round.env event
    | _ => { c with phase := .finished, listener := { c.listener with running := false } }
  | .auth =>
    if c.listener.authed then { c with phase := .main }
    else
      match round.read with
      | .failed => { c with phase := .finished }
      | .nothing => c
      | .packet event => executePacket c round.env event
  | .main =>
    if round.done || !c.listener.running || !round.ready then { c with phase := .finished }
    else
      match round.read with
      | .failed => { c with phase := .finished }
      | .nothing => c
      | .packet event => executePacket c round.env event

/-! ### Before authentication -/

structure SameState (l l' : Listener) : Prop where
  filters : l'.filters = l.filters
  eventList : l'.eventList = l.eventList
  eventHash : l'.eventHash = l.eventHash
  level : l'.level = l.level
  session : l'.session = l.session

/-- `auth` with exactly the configured password, or `userauth` with the user's, which is not empty.
-/
def Credentials (env : Env) (cmd : Text) : Prop :=
  isCommand "auth " cmd = true ∧ (stripCr cmd).drop 5 = env.password ∨
    isCommand "userauth " cmd = true ∧ ∃ entry password,
      env.locateUser (userauthParts cmd).1 ((userauthParts cmd).2.1.getD []) = some entry ∧
      password ≠ [] ∧ (userParams entry).passwd = some password ∧
      (userauthParts cmd).2.2 = some password

/-- The packet's command, as it is executed, is `auth` or `userauth`. -/
def TriesAuth (cmd : Text) : Prop :=
  isCommand "auth " cmd = true ∨ isCommand "userauth " cmd = true

theorem userPasswordMatches_iff {params : UserParams} {pass : Option Text} :
    userPasswordMatches params pass = true ↔
      ∃ password, password ≠ [] ∧ params.passwd = some password ∧ pass = some password := by
  simp only [userPasswordMatches, Bool.and_eq_true, bne_iff_ne, beq_iff_eq]
  constructor
  · rintro ⟨⟨given, -⟩, same⟩
    cases stored : params.passwd with
    | none => exact absurd (by rw [stored]; rfl) given
    | some password =>
      rw [stored] at given same
      exact ⟨password, given, rfl, same.symm⟩
  · rintro ⟨password, given, stored, rfl⟩
    rw [stored]
    exact ⟨⟨given, given⟩, rfl⟩

theorem grantEvents_same (l : Listener) (allowed : Option Text) :
    SameState l (grantEvents l allowed) := by
  cases allowed with
  | none => exact ⟨rfl, rfl, rfl, rfl, rfl⟩
  | some names =>
    refine List.foldlRecOn (motive := fun state : Listener × Bool => SameState l state.1)
      (nameTokens names) grantEvent ⟨rfl, rfl, rfl, rfl, rfl⟩ ?_
    rintro state same cur -
    unfold grantEvent
    simp only
    repeat' split
    all_goals exact { same with }

theorem userauthGrant_same (l : Listener) (params : UserParams) :
    SameState l (userauthGrant l params) := by
  obtain ⟨filters, eventList, eventHash, level, session⟩ := grantEvents_same l params.allowedEvents
  unfold userauthGrant grantApi
  cases params.allowedApi with
  | none => exact ⟨filters, eventList, eventHash, level, session⟩
  | some names => exact ⟨filters, eventList, eventHash, level, session⟩

section Answers

variable {env : Env} {l : Listener} {cmd : Text} {out : Outcome}

theorem AuthAnswer.same (answer : AuthAnswer env l cmd out) : SameState l out.listener := by
  cases answer with
  | userauth is found same =>
    obtain ⟨filters, eventList, eventHash, level, session⟩ :=
      userauthGrant_same { l with allowLog := false } (userParams _)
    exact ⟨filters, eventList, eventHash, level, session⟩
  | _ => exact ⟨rfl, rfl, rfl, rfl, rfl⟩

theorem AuthAnswer.ok (answer : AuthAnswer env l cmd out) : out.ok = true := by
  cases answer <;> rfl

theorem AuthAnswer.credentials (answer : AuthAnswer env l cmd out) (closed : l.authed = false)
    (opened : out.listener.authed = true) : Credentials env cmd := by
  cases answer with
  | auth is same => exact .inl ⟨is, same.symm⟩
  | @userauth is entry found same =>
    obtain ⟨password, given, stored, sent⟩ := userPasswordMatches_iff.mp same
    exact .inr ⟨is, entry, password, found, given, stored, sent⟩
  | unknown | refused => exact absurd (closed.symm.trans opened) (by decide)

theorem AuthAnswer.stops (answer : AuthAnswer env l cmd out) (tried : TriesAuth cmd)
    (wrong : ¬ Credentials env cmd) : out.listener.running = false := by
  cases answer with
  | refused => rfl
  | unknown auth userauth =>
    rcases tried with is | is
    · exact absurd is (Bool.eq_false_iff.mp auth)
    · exact absurd is (Bool.eq_false_iff.mp userauth)
  | auth is same => exact absurd (.inl ⟨is, same.symm⟩) wrong
  | @userauth is entry found same =>
    obtain ⟨password, given, stored, sent⟩ := userPasswordMatches_iff.mp same
    exact absurd (.inr ⟨is, entry, password, found, given, stored, sent⟩) wrong

end Answers

def Executed.HasCredentials (x : Executed) : Prop :=
  ∃ cmd, commandText x.packet = some cmd ∧ Credentials x.env cmd

structure Executed.Fails (x : Executed) : Prop where
  closed : x.before.authed = false
  tries : ∃ cmd, commandText x.packet = some cmd ∧ TriesAuth cmd
  wrong : ¬ x.HasCredentials

/-- Before authentication: nothing outside the listener, nothing to its filters, subscriptions, log
level and session; and only the right credentials authenticate. -/
structure Executed.Harmless (x : Executed) (out : Outcome) : Prop where
  effects : out.effects = []
  same : SameState x.before out.listener
  ok : out.ok = true
  authed : out.listener.authed = true → x.HasCredentials
  stops : x.Fails → out.listener.running = false

theorem executed_closed (x : Executed) (closed : x.before.authed = false) :
    ∃ out, x.outcome = some out ∧ x.Harmless out := by
  obtain ⟨out, parsed, ⟨reply, rfl⟩ | ⟨event, cmd, named, answer⟩⟩ :=
    parseCommand_closed x.env (some x.packet) closed
  · exact ⟨_, parsed, rfl, ⟨rfl, rfl, rfl, rfl, rfl⟩, rfl,
      fun opened => absurd (closed.symm.trans opened) (by decide), fun _ => rfl⟩
  · obtain ⟨rfl⟩ := Option.some.inj named.given
    refine ⟨out, parsed, answer.effects, answer.same, answer.ok, fun opened => ?_, fun fails => ?_⟩
    · exact ⟨cmd, named.text, answer.credentials closed opened⟩
    · obtain ⟨cmd', text, tried⟩ := fails.tries
      obtain rfl := Option.some.inj (text.symm.trans named.text)
      exact answer.stops tried fun right => fails.wrong ⟨_, text, right⟩

/-! ### Runs -/

/-- **What holds in every state of a connection** that started unauthenticated as `start`. -/
structure ConnectionInv (start : Listener) (c : Connection) : Prop where
  closed : c.listener.authed = false → SameState start c.listener
  opened : c.listener.authed = true → ∃ x ∈ c.executed, x.before.authed = false ∧ x.HasCredentials
  phase : c.phase ≠ .session
  failed : ∀ x ∈ c.executed, x.Fails → c.listener.running = false ∧ c.phase ≠ .auth
  last : ∀ earlier x later, c.executed = earlier ++ x :: later → x.Fails → later = []

theorem SameState.trans {a b c : Listener} (first : SameState a b) (second : SameState b c) :
    SameState a c :=
  ⟨second.filters.trans first.filters, second.eventList.trans first.eventList,
    second.eventHash.trans first.eventHash, second.level.trans first.level,
    second.session.trans first.session⟩

theorem ConnectionInv.moves {start : Listener} {c : Connection} (inv : ConnectionInv start c)
    {phase : Phase} (later : phase = .main ∨ phase = .finished) :
    ConnectionInv start { c with phase := phase } where
  closed := inv.closed
  opened := inv.opened
  phase := by rcases later with rfl | rfl <;> exact Phase.noConfusion
  failed x member fails := ⟨(inv.failed x member fails).1, by
    rcases later with rfl | rfl <;> exact Phase.noConfusion⟩
  last := inv.last

theorem fails_last {before : List Executed} {x : Executed} (none : ∀ y ∈ before, ¬ y.Fails) :
    ∀ earlier y later, before ++ [x] = earlier ++ y :: later → y.Fails → later = [] := by
  intro earlier y later split fails
  rcases eq_nil_or_concat later with rfl | ⟨between, z, rfl⟩
  · rfl
  · rw [concat_eq_append, ← cons_append, ← append_assoc] at split
    have parts := (append_inj_left' split rfl).symm
    exact absurd fails (none y (parts ▸ by simp))

section Steps

variable {start : Listener} {c : Connection}

theorem ConnectionInv.executes_closed (inv : ConnectionInv start c)
    (none : ∀ x ∈ c.executed, ¬ x.Fails) (closed : c.listener.authed = false) (env : Env)
    (event : Event) : ConnectionInv start (executePacket c env event) := by
  obtain ⟨out, parsed, harmless⟩ := executed_closed ⟨env, c.listener, event⟩ closed
  have parsed : parseCommand env c.listener (some event) = some out := parsed
  simp only [executePacket, parsed, harmless.ok, if_true]
  refine ⟨fun _ => (inv.closed closed).trans harmless.same, fun opened => ?_, Phase.noConfusion, ?_,
    fails_last none⟩
  · exact ⟨_, mem_append_right _ mem_cons_self, closed, harmless.authed opened⟩
  · intro x member fails
    rcases mem_append.mp member with old | new
    · exact absurd fails (none x old)
    · obtain rfl := mem_singleton.mp new
      exact ⟨harmless.stops fails, Phase.noConfusion⟩

theorem ConnectionInv.executes_opened (inv : ConnectionInv start c)
    (none : ∀ x ∈ c.executed, ¬ x.Fails) (opened : c.listener.authed = true) (env : Env)
    (event : Event) : ConnectionInv start (executePacket c env event) := by
  have known : ∀ x ∈ c.executed ++ [⟨env, c.listener, event⟩], ¬ x.Fails := by
    intro x member fails
    rcases mem_append.mp member with old | new
    · exact none x old fails
    · obtain rfl := mem_singleton.mp new
      exact absurd (fails.closed.symm.trans opened) (by decide)
  -- the packet that authenticated is still there
  have after : ∀ (phase : Phase) (l : Listener) (sent : List Text), l.authed = true →
      phase ≠ .session →
      ConnectionInv start ⟨phase, l, c.executed ++ [⟨env, c.listener, event⟩], sent⟩ := by
    intro phase l sent authed inbound
    refine ⟨fun shut => absurd (shut.symm.trans authed) (by decide), fun _ => ?_, inbound,
      fun x member fails => absurd fails (known x member), fails_last none⟩
    obtain ⟨x, member, first, right⟩ := inv.opened opened
    exact ⟨x, mem_append_left _ member, first, right⟩
  unfold executePacket
  simp only
  split
  · exact after _ _ _ opened Phase.noConfusion
  next out parsed =>
    have authed : out.listener.authed = true := (congrArg Grants.authed
      ((parseCommand_dispatched parsed).keepsGranted opened).1).trans opened
    split <;> exact after _ _ _ authed Phase.noConfusion

theorem ConnectionInv.executes (inv : ConnectionInv start c)
    (none : ∀ x ∈ c.executed, ¬ x.Fails) (env : Env) (event : Event) :
    ConnectionInv start (executePacket c env event) := by
  cases authed : c.listener.authed with
  | false => exact inv.executes_closed none authed env event
  | true => exact inv.executes_opened none authed env event

/-- **One round keeps the invariant.** A packet is only executed in the loop for the authentication,
before any try, or while the listener runs. -/
theorem ConnectionInv.step (inv : ConnectionInv start c) (round : Round) :
    ConnectionInv start (listenerStep c round) := by
  unfold listenerStep
  split
  · exact inv
  next session => exact absurd session inv.phase
  next auth =>
    have none : ∀ x ∈ c.executed, ¬ x.Fails := fun x member fails =>
      (inv.failed x member fails).2 auth
    split
    · exact inv.moves (.inl rfl)
    · split
      · exact inv.moves (.inr rfl)
      · exact inv
      · exact inv.executes none _ _
  next main =>
    split
    · exact inv.moves (.inr rfl)
    next goes =>
      have none : ∀ x ∈ c.executed, ¬ x.Fails := fun x member fails => by
        simp [(inv.failed x member fails).1] at goes
      split
      · exact inv.moves (.inr rfl)
      · exact inv
      · exact inv.executes none _ _

end Steps

theorem listenerStart_inv {l : Listener} (closed : l.authed = false) (accepted : Bool) :
    ConnectionInv l (listenerStart l accepted) := by
  have fresh : ∀ (phase : Phase) (l' : Listener) (sent : List Text), SameState l l' →
      l'.authed = false → phase ≠ .session → ConnectionInv l ⟨phase, l', [], sent⟩ := by
    intro phase l' sent same shut inbound
    refine ⟨fun _ => same, fun opened => absurd (shut.symm.trans opened) (by decide), inbound,
      fun x member => absurd member not_mem_nil, fun earlier x later split => ?_⟩
    exact absurd split (by simp)
  unfold listenerStart
  split_ifs with rejected outbound
  · exact fresh _ _ _ ⟨rfl, rfl, rfl, rfl, rfl⟩ closed Phase.noConfusion
  · exact absurd (Bool.and_eq_true_iff.mp outbound).2 (Bool.eq_false_iff.mp closed)
  · exact fresh _ _ _ ⟨rfl, rfl, rfl, rfl, rfl⟩ closed Phase.noConfusion

/-- **Nothing happens before authentication.** In every run of a connection that starts without it:
each packet executed before it has no effect outside the listener and leaves the filters, the
subscriptions, the log level and the session as they are; they are those of the start until the
listener is authenticated; it is only authenticated by a packet with the right credentials; and a
packet that tries others is the last one that is executed. -/
theorem no_effect_before_auth {l : Listener} (closed : l.authed = false) (accepted : Bool)
    (rounds : List Round) :
    let c := run listenerStep (listenerStart l accepted) rounds
    (∀ x ∈ c.executed, x.before.authed = false → ∃ out, x.outcome = some out ∧ out.effects = [] ∧
        SameState x.before out.listener ∧ (out.listener.authed = true → x.HasCredentials)) ∧
      (c.listener.authed = false → SameState l c.listener) ∧
      (c.listener.authed = true →
        ∃ x ∈ c.executed, x.before.authed = false ∧ x.HasCredentials) ∧
      ∀ earlier x later, c.executed = earlier ++ x :: later → x.Fails → later = [] := by
  intro c
  have inv : ConnectionInv l c := run_keeps_all (P := ConnectionInv l)
    (fun _ round inv => inv.step round) (listenerStart_inv closed accepted) rounds
  refine ⟨fun x _ shut => ?_, inv.closed, inv.opened, inv.last⟩
  obtain ⟨out, parsed, harmless⟩ := executed_closed x shut
  exact ⟨out, parsed, harmless.effects, harmless.same, harmless.authed⟩

def packetRound (lines : List String) : Round := ⟨default, false, true, .packet (packetOf lines)⟩

/-- A filter is not set, and the password is not looked at after a wrong one. -/
theorem no_effect_before_auth_inbound :
    let c := run listenerStep (listenerStart inboundListener true)
      [packetRound ["filter Unique-ID 1"], packetRound ["auth wrong"], packetRound ["auth ClueCon"]]
    inboundListener.authed = false ∧ SameState inboundListener c.listener ∧ c.executed.length = 2 :=
  ⟨rfl, (no_effect_before_auth rfl true _).2.1 (by decide +kernel), by decide +kernel⟩

/-! ### After authentication -/

/-- The grants of an authenticated listener are those that a packet with credentials has given. -/
def GrantedOnce (c : Connection) : Prop :=
  c.listener.authed = true → ∃ x ∈ c.executed, ∃ out, x.before.authed = false ∧ x.HasCredentials ∧
    x.outcome = some out ∧ out.listener.grants = c.listener.grants

theorem GrantedOnce.executes {c : Connection} (granted : GrantedOnce c) (env : Env) (event : Event) :
    GrantedOnce (executePacket c env event) := by
  have last : ⟨env, c.listener, event⟩ ∈ c.executed ++ [⟨env, c.listener, event⟩] :=
    mem_append_right _ mem_cons_self
  -- what was given before is still there
  have kept : ∀ (phase : Phase) (l : Listener) (sent : List Text), l.grants = c.listener.grants →
      GrantedOnce ⟨phase, l, c.executed ++ [⟨env, c.listener, event⟩], sent⟩ := by
    intro phase l sent same authed
    obtain ⟨x, member, out, first, right, done, given⟩ :=
      granted ((congrArg Grants.authed same).symm.trans authed)
    exact ⟨x, mem_append_left _ member, out, first, right, done, given.trans same.symm⟩
  cases before : c.listener.authed with
  | true =>
    unfold executePacket
    simp only
    split
    · exact kept _ _ _ rfl
    next out parsed =>
      have same := ((parseCommand_dispatched parsed).keepsGranted before).1
      split
      · exact kept _ _ _ same
      · exact kept _ _ _ same
  | false =>
    obtain ⟨out, parsed, harmless⟩ := executed_closed ⟨env, c.listener, event⟩ before
    have done : parseCommand env c.listener (some event) = some out := parsed
    simp only [executePacket, done, harmless.ok, if_true]
    exact fun authed => ⟨_, last, out, before, harmless.authed authed, parsed, rfl⟩

theorem GrantedOnce.step (c : Connection) (round : Round) (granted : GrantedOnce c) :
    GrantedOnce (listenerStep c round) := by
  unfold listenerStep
  repeat' split
  all_goals first
    | exact granted
    | exact granted.executes _ _

/-- **Rights are given once**: in every run of a connection that starts without authentication, the
rights of an authenticated listener are those that the packet with the right credentials has given
it, whatever packets have come since. -/
theorem rights_given_once {l : Listener} (closed : l.authed = false) (accepted : Bool)
    (rounds : List Round) : GrantedOnce (run listenerStep (listenerStart l accepted) rounds) := by
  refine run_keeps_all (P := GrantedOnce) GrantedOnce.step (fun opened => ?_) rounds
  refine absurd ((Eq.symm ?_).trans opened) Bool.false_ne_true
  unfold listenerStart
  split_ifs <;> exact closed

theorem rights_given_once_inbound :
    let c := run listenerStep (listenerStart inboundListener true)
      [packetRound ["auth ClueCon"], packetRound ["myevents 1"]]
    c.listener.authed = true ∧ ∃ x ∈ c.executed, x.HasCredentials := by
  intro c
  have authed : c.listener.authed = true := by decide +kernel
  obtain ⟨x, member, -, -, right, -⟩ := rights_given_once rfl true _ authed
  exact ⟨authed, x, member, right⟩

end FreeSwitch
