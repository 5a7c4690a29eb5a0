/-
**The subscriptions of a listener with granted events.**

A user's entry may name the event types the user is granted (`LFLAG_AUTH_EVENTS`). Four commands
write the subscriptions; `event` looks at the grants, `nixevent` and `noevents` only take away, and
`myevents` adds its types whatever the grants are.

* `subscriptions_granted_iff`: when the subscriptions are granted in every state of a run.
-/

import FreeSwitch.EventSocket.Dispatch

namespace FreeSwitch

open CString Run

/-- One packet; the listener stays as it is where `parse_command` does not return. -/
def commandStep (l : Listener) (input : Env × Option Event) : Listener :=
  (parseCommand input.1 l input.2).elim l Outcome.listener

/-! ### Subscriptions and grants -/

structure Restricted (l : Listener) : Prop where
  authEvents : l.authEvents = true
  notAll : l.allEventsAuthed = false

def EventListGranted (l : Listener) : Prop :=
  Restricted l → ∀ type, l.eventList type = true → l.allowedEventList type = true

def TypesGranted (l : Listener) : Prop :=
  Restricted l → (∀ type, l.eventList type = true → l.allowedEventList type = true) ∧
    ∀ regex event, eventHandlerSends regex l event = true → l.allowedEventList event.eventId = true

/-- **What holds of the grants in every state.** Before authentication there are none, and no
subscriptions; and who is granted `ALL` is granted everything. -/
structure GrantInv (l : Listener) : Prop where
  closed : l.authed = false → l.authEvents = false ∧ ∀ type, l.eventList type = false
  unlisted : l.authed = false → ∀ type, l.allowedEventList type = false
  all : l.allowedEventList .all = true → l.allEventsAuthed = true

variable {env : Env} {l l' : Listener} {out : Outcome}

theorem Restricted.of_grants (grants : l'.grants = l.grants) (restricted : Restricted l') :
    Restricted l :=
  ⟨(congrArg Grants.authEvents grants).symm.trans restricted.authEvents,
    (congrArg Grants.allEventsAuthed grants).symm.trans restricted.notAll⟩

theorem EventListGranted.of_fewer (granted : EventListGranted l) (grants : l'.grants = l.grants)
    (fewer : ∀ type, l'.eventList type = true → l.eventList type = true) :
    EventListGranted l' := by
  intro restricted type member
  have allowed := granted (restricted.of_grants grants) type (fewer type member)
  exact (congrFun (congrArg Grants.allowedEventList grants) type).trans allowed

theorem GrantInv.not_all (inv : GrantInv l) (granted : EventListGranted l)
    (restricted : Restricted l) : l.eventList .all = false := by
  refine Bool.eq_false_iff.mpr fun subscribed => ?_
  have everything := inv.all (granted restricted .all subscribed)
  exact absurd everything (Bool.eq_false_iff.mp restricted.notAll)

theorem typesGranted_iff (inv : GrantInv l) :
    TypesGranted l ↔ EventListGranted l := by
  refine ⟨fun both restricted => (both restricted).1, fun granted restricted => ?_⟩
  refine ⟨granted restricted, fun regex event sends => granted restricted _ ?_⟩
  simp only [eventHandlerSends, subscribed, inv.not_all granted restricted, Bool.false_or,
    Bool.and_eq_true] at sends
  exact sends.1.1.2.1

theorem GrantInv.of_grants (inv : GrantInv l) (authed : l.authed = true)
    (grants : l'.grants = l.grants) : GrantInv l' := by
  have opened : l'.authed ≠ false := by
    rw [show l'.authed = l.authed from congrArg Grants.authed grants, authed]
    exact Bool.noConfusion
  refine ⟨fun closed => absurd closed opened, fun closed => absurd closed opened, ?_⟩
  · intro everything
    have listed := congrFun (congrArg Grants.allowedEventList grants) EventType.all
    exact (congrArg Grants.allEventsAuthed grants).trans (inv.all (listed.symm.trans everything))

/-- The grants are kept, and subscriptions that were granted still are. -/
structure KeepsGranted (l l' : Listener) : Prop where
  grants : l'.grants = l.grants
  granted : l.authed = true → GrantInv l → EventListGranted l → EventListGranted l'

theorem KeepsGranted.refl (l : Listener) : KeepsGranted l l := ⟨rfl, fun _ _ granted => granted⟩

theorem KeepsGranted.of_fewer (grants : l'.grants = l.grants)
    (fewer : ∀ type, l'.eventList type = true → l.eventList type = true) : KeepsGranted l l' :=
  ⟨grants, fun _ _ granted => granted.of_fewer grants fewer⟩

theorem KeepsGranted.trans {l'' : Listener} (first : KeepsGranted l l')
    (second : KeepsGranted l' l'') : KeepsGranted l l'' where
  grants := second.grants.trans first.grants
  granted authed inv granted :=
    second.granted ((congrArg Grants.authed first.grants).trans authed)
      (inv.of_grants authed first.grants) (first.granted authed inv granted)

/-! ### The loops over the words -/

theorem subscribeType_granted (inv : GrantInv l) (granted : EventListGranted l) {type : EventType}
    (allowed : typeAllowed l type = true) :
    EventListGranted (subscribeType l type) := by
  intro restricted other member
  have inner : Restricted l := ⟨restricted.authEvents, restricted.notAll⟩
  have listed : l.allowedEventList type = true := by
    simpa [typeAllowed, inner.authEvents, inner.notAll] using allowed
  have single : type ≠ .all := by
    rintro rfl
    exact absurd (inv.all listed) (Bool.eq_false_iff.mp inner.notAll)
  simp only [subscribeType, if_neg single] at member
  by_cases same : other = type
  · exact same ▸ listed
  · rw [Function.update_of_ne same] at member
    exact granted inner other member

theorem subscribeLoop_keeps (words : List Text) : ∀ (l : Listener) (custom : Bool) (keys : Nat),
    KeepsGranted l (subscribeLoop l custom keys words).1 := by
  induction words with
  | nil => exact fun l custom keys => .refl l
  | cons cur rest ih =>
    intro l custom keys
    unfold subscribeLoop
    split
    · -- a subclass
      split
      · have keeps : KeepsGranted l { l with eventHash := cur :: l.eventHash } :=
          .of_fewer rfl fun _ member => member
        exact keeps.trans (ih _ true keys)
      · exact .refl l
    · split
      next type _ =>
        split
        next allowed =>
          have keeps : KeepsGranted l (subscribeType l type) :=
            ⟨rfl, fun _ inv granted => subscribeType_granted inv granted allowed⟩
          exact keeps.trans (ih _ (decide (type = .custom)) (keys + 1))
        next => exact .refl l
      next => exact ih l false keys

theorem nixType_fewer {list : EventType → Bool} (single : list .all = false) {type other : EventType}
    (member : nixType list type other = true) : list other = true := by
  unfold nixType at member
  split at member
  · cases member
  · rw [single, if_neg Bool.false_ne_true] at member
    by_cases same : other = type
    · rw [same, Function.update_self] at member
      cases member
    · rwa [Function.update_of_ne same] at member

theorem nixLoop_keeps (words : List Text) : ∀ (l : Listener) (custom : Bool) (keys : Nat),
    KeepsGranted l (nixLoop l custom keys words).1 := by
  induction words with
  | nil => exact fun l custom keys => .refl l
  | cons cur rest ih =>
    intro l custom keys
    unfold nixLoop
    split
    · have keeps : KeepsGranted l { l with eventHash := l.eventHash.filter (· != cur) } :=
        .of_fewer rfl fun _ member => member
      exact keeps.trans (ih _ true keys)
    · split
      next => exact ih l true (keys + 1)
      next type _ _ =>
        have keeps : KeepsGranted l { l with eventList := nixType l.eventList type } := by
          refine ⟨rfl, fun _ inv granted restricted => ?_⟩
          have inner : Restricted l := ⟨restricted.authEvents, restricted.notAll⟩
          have fewer := fun other => @nixType_fewer _ (inv.not_all granted inner) type other
          exact granted.of_fewer rfl fewer restricted
        exact keeps.trans (ih _ false (keys + 1))
      next => exact ih l false keys

/-! ### The commands -/

theorem Plain.keepsGranted (same : Plain l out) : KeepsGranted l out.listener :=
  .of_fewer same.grants fun type member => (congrFun same.eventList type).symm.trans member

theorem parseEvent_keepsGranted (l : Listener) (cmd : Text) :
    KeepsGranted l (parseEvent l cmd).listener := by
  unfold parseEvent
  simp only
  generalize (if ((eventWords cmd).head?.bind str2format).isSome then (eventWords cmd).tail
    else eventWords cmd) = words
  generalize ((eventWords cmd).head?.bind str2format).getD l.format = format
  have first : KeepsGranted l { l with format } := .of_fewer rfl fun _ member => member
  have keeps := first.trans (subscribeLoop_keeps words _ false 0)
  split
  · exact keeps
  · exact keeps
  · exact keeps.trans (.of_fewer rfl fun _ member => member)

theorem parseNixevent_keepsGranted (l : Listener) (cmd : Text) :
    KeepsGranted l (parseNixevent l cmd).listener := by
  have keeps := nixLoop_keeps (eventWords cmd) l false 0
  unfold parseNixevent
  simp only
  split
  · exact keeps
  · exact keeps.trans (.of_fewer rfl fun _ member => member)

theorem parseNoevents_keepsGranted (l : Listener) :
    KeepsGranted l (parseNoevents l).listener := by
  unfold parseNoevents
  simp only
  split
  · exact .of_fewer rfl fun _ member => Bool.noConfusion member
  · exact .of_fewer rfl fun _ member => member

/-- `myevents` takes effect: it has not before, and there is a session, or the text names one that
is found or nothing else. -/
def myeventsAccepted (env : Env) (l : Listener) (cmd : Text) : Bool :=
  let uuid := cut ' ' (stripCr (cmd.drop 9))
  !l.myevents && (l.session.isSome || env.sessionLocate uuid.1 || uuid.2.isNone)

theorem enableMyevents_grants (l : Listener) (cmd : Text) :
    (enableMyevents l cmd).grants = l.grants := by
  unfold enableMyevents
  simp only
  repeat' split
  all_goals rfl

theorem enableMyevents_eventList (l : Listener) (cmd : Text) :
    (enableMyevents l cmd).eventList =
      fun type => myEventTypes.contains type || l.eventList type := by
  unfold enableMyevents
  simp only
  repeat' split
  all_goals rfl

theorem parseMyevents_grants (env : Env) (l : Listener) (cmd : Text) :
    (parseMyevents env l cmd).listener.grants = l.grants := by
  unfold parseMyevents
  simp only
  repeat' split
  all_goals first
    | rfl
    | exact enableMyevents_grants _ _

theorem parseMyevents_eventList (env : Env) (l : Listener) (cmd : Text) :
    (parseMyevents env l cmd).listener.eventList =
      if myeventsAccepted env l cmd then
        fun type => myEventTypes.contains type || l.eventList type
      else l.eventList := by
  unfold parseMyevents myeventsAccepted
  simp only
  split
  next already =>
    rw [if_neg (by simp [already])]
    rfl
  next fresh =>
    split
    next has =>
      rw [if_pos (by simp [fresh, has])]
      exact enableMyevents_eventList l cmd
    next has =>
      split
      next refused =>
        rw [if_neg (by simpa [fresh, has, Option.isSome_iff_ne_none] using refused)]
        rfl
      next found =>
        refine (enableMyevents_eventList _ _).trans (Eq.symm (if_pos ?_))
        cases located : env.sessionLocate (cut ' ' (stripCr (cmd.drop 9))).1
        · simpa [fresh, has, located] using found
        · simp [fresh]

/-! ### Authentication -/

theorem grantEvent_all {state : Listener × Bool} (cur : Text)
    (all : state.1.allowedEventList .all = true → state.1.allEventsAuthed = true) :
    (grantEvent state cur).1.allowedEventList .all = true →
      (grantEvent state cur).1.allEventsAuthed = true := by
  unfold grantEvent
  simp only
  split
  · exact all
  · split
    next type _ =>
      by_cases everything : type = .all
      · exact fun _ => by simp [everything]
      · intro listed
        simp only [if_neg everything, Function.update_of_ne (Ne.symm everything)] at listed ⊢
        exact all listed
    next => exact all

theorem grantEvents_spec (l : Listener) (allowed : Option Text)
    (unlisted : ∀ type, l.allowedEventList type = false) :
    ((grantEvents l allowed).allowedEventList .all = true →
        (grantEvents l allowed).allEventsAuthed = true) ∧
      (grantEvents l allowed).eventList = l.eventList := by
  cases allowed with
  | none => exact ⟨fun listed => absurd listed (Bool.eq_false_iff.mp (unlisted .all)), rfl⟩
  | some names =>
    refine List.foldlRecOn (motive := fun state : Listener × Bool =>
      (state.1.allowedEventList .all = true → state.1.allEventsAuthed = true) ∧
        state.1.eventList = l.eventList) (nameTokens names) grantEvent ?_ ?_
    · exact ⟨fun listed => absurd listed (Bool.eq_false_iff.mp (unlisted .all)), rfl⟩
    · rintro state ⟨all, same⟩ cur -
      refine ⟨grantEvent_all cur all, ?_⟩
      rw [← same]
      unfold grantEvent
      simp only
      repeat' split
      all_goals rfl

theorem userauthGrant_spec (l : Listener) (params : UserParams)
    (unlisted : ∀ type, l.allowedEventList type = false) :
    ((userauthGrant l params).allowedEventList .all = true →
        (userauthGrant l params).allEventsAuthed = true) ∧
      (userauthGrant l params).eventList = l.eventList ∧ (userauthGrant l params).authed = true := by
  obtain ⟨all, same⟩ := grantEvents_spec l params.allowedEvents unlisted
  unfold userauthGrant grantApi
  cases params.allowedApi with
  | none => exact ⟨all, same, rfl⟩
  | some names => exact ⟨all, same, rfl⟩

theorem AuthAnswer.grantInv {cmd : Text} (answer : AuthAnswer env l cmd out) (inv : GrantInv l)
    (closed : l.authed = false) :
    GrantInv out.listener ∧ ∀ type, out.listener.eventList type = false := by
  obtain ⟨-, empty⟩ := inv.closed closed
  cases answer with
  | unknown => exact ⟨inv, empty⟩
  | auth => exact ⟨⟨Bool.noConfusion, Bool.noConfusion, inv.all⟩, empty⟩
  | refused => exact ⟨{ inv with }, empty⟩
  | userauth is found same =>
    obtain ⟨all, kept, opened⟩ := userauthGrant_spec { l with allowLog := false }
      (userParams _) (inv.unlisted closed)
    refine ⟨⟨fun shut => ?_, fun shut => ?_, all⟩, fun type => (congrFun kept type).trans (empty type)⟩ <;>
      exact absurd (opened.symm.trans shut) (by decide)

/-! ### Runs -/

/-- The packet is a `myevents` that takes effect. -/
def AcceptsMyevents (l : Listener) (input : Env × Option Event) : Prop :=
  ∃ event cmd, Named input.2 event cmd ∧ l.authed = true ∧ isMyevents l cmd = true ∧
    myeventsAccepted input.1 l cmd = true

/-- A restricted listener for which `myevents` takes effect is granted its types. -/
def MyeventsGranted (l : Listener) (input : Env × Option Event) : Prop :=
  AcceptsMyevents l input → Restricted l → ∀ type ∈ myEventTypes, l.allowedEventList type = true

theorem Dispatched.keepsGranted {packet : Option Event} (dispatched : Dispatched env l packet out)
    (authed : l.authed = true) :
    out.listener.grants = l.grants ∧
      (¬ AcceptsMyevents l (env, packet) → KeepsGranted l out.listener) := by
  have both (keeps : KeepsGranted l out.listener) : out.listener.grants = l.grants ∧
      (¬ AcceptsMyevents l (env, packet) → KeepsGranted l out.listener) :=
    ⟨keeps.grants, fun _ => keeps⟩
  cases dispatched with
  | plain same => exact both same.keepsGranted
  | unauthed named closed answer => exact absurd (closed.symm.trans authed) (by decide)
  | event cmd may => exact both (parseEvent_keepsGranted l cmd)
  | nixevent cmd may => exact both (parseNixevent_keepsGranted l cmd)
  | noevents may => exact both (parseNoevents_keepsGranted l)
  | myevents named authed is =>
    refine ⟨parseMyevents_grants env l _, fun other => ?_⟩
    refine Plain.keepsGranted ⟨parseMyevents_calls env l _, parseMyevents_grants env l _, ?_⟩
    rw [parseMyevents_eventList, if_neg fun accepted => other ⟨_, _, named, authed, is, accepted⟩]
  | api named may is parsed | bgapi named may is parsed =>
    obtain ⟨ok, -, rfl⟩ := Option.map_eq_some_iff.mp parsed
    refine both ?_
    split
    all_goals exact ⟨rfl, fun _ _ granted => granted⟩

theorem parseCommand_closed_grantInv {packet : Option Event} (inv : GrantInv l)
    (closed : l.authed = false) (parsed : parseCommand env l packet = some out) :
    GrantInv out.listener ∧ ∀ type, out.listener.eventList type = false := by
  obtain ⟨out', answered, cases⟩ := parseCommand_closed env packet closed
  obtain rfl := Option.some.inj (answered.symm.trans parsed)
  rcases cases with ⟨reply, rfl⟩ | ⟨event, cmd, -, answer⟩
  · exact ⟨{ inv with }, (inv.closed closed).2⟩
  · exact answer.grantInv inv closed

theorem commandStep_grantInv (inv : GrantInv l) (input : Env × Option Event) :
    GrantInv (commandStep l input) := by
  unfold commandStep
  cases parsed : parseCommand input.1 l input.2 with
  | none => exact inv
  | some out =>
    cases authed : l.authed with
    | true => exact inv.of_grants authed ((parseCommand_dispatched parsed).keepsGranted authed).1
    | false => exact (parseCommand_closed_grantInv inv authed parsed).1

theorem commandStep_granted (inv : GrantInv l) (granted : EventListGranted l)
    {input : Env × Option Event} (other : ¬ AcceptsMyevents l input) :
    EventListGranted (commandStep l input) := by
  unfold commandStep
  cases parsed : parseCommand input.1 l input.2 with
  | none => exact granted
  | some out =>
    cases authed : l.authed with
    | true =>
      have keeps := ((parseCommand_dispatched parsed).keepsGranted authed).2 other
      exact keeps.granted authed inv granted
    | false =>
      intro _ type member
      have empty := (parseCommand_closed_grantInv inv authed parsed).2 type
      exact absurd (empty.symm.trans member) (by decide)

theorem commandStep_myevents (granted : EventListGranted l) {input : Env × Option Event}
    (accepts : AcceptsMyevents l input) :
    EventListGranted (commandStep l input) ↔
      (Restricted l → ∀ type ∈ myEventTypes, l.allowedEventList type = true) := by
  obtain ⟨env, packet⟩ := input
  obtain ⟨event, cmd, ⟨rfl, named⟩, authed, is, accepted⟩ := accepts
  have step : commandStep l (env, some event) = (parseMyevents env l cmd).listener := by
    unfold commandStep
    rw [parseCommand_eq_parseMyevents named is authed]
    rfl
  have grants := parseMyevents_grants env l cmd
  have list : (parseMyevents env l cmd).listener.allowedEventList = l.allowedEventList :=
    congrArg Grants.allowedEventList grants
  rw [step, EventListGranted, parseMyevents_eventList, if_pos accepted, list]
  constructor
  · intro after restricted type member
    refine after (restricted.of_grants grants.symm) type ?_
    rw [List.contains_iff_mem.mpr member, Bool.true_or]
  · intro types restricted type member
    rcases Bool.or_eq_true_iff.mp member with new | old
    · exact types (restricted.of_grants grants) type (List.contains_iff_mem.mp new)
    · exact granted (restricted.of_grants grants) type old

/-- **One packet**: the subscriptions stay granted exactly if a `myevents` that takes effect finds
its types granted. -/
theorem commandStep_granted_iff (inv : GrantInv l) (granted : EventListGranted l)
    (input : Env × Option Event) :
    EventListGranted (commandStep l input) ↔ MyeventsGranted l input := by
  by_cases accepts : AcceptsMyevents l input
  · rw [commandStep_myevents granted accepts]
    exact ⟨fun types _ => types, fun types => types accepts⟩
  · exact iff_of_true (commandStep_granted inv granted accepts) fun yes => absurd yes accepts

theorem inboundListener_grantInv : GrantInv inboundListener :=
  ⟨fun _ => ⟨rfl, fun _ => rfl⟩, fun _ _ => rfl, fun listed => nomatch listed⟩

/-- **Every run of a connection**: its subscriptions and what it is sent are granted in every state
it passes exactly if every accepted `myevents` finds its types granted. -/
theorem subscriptions_granted_iff (inputs : List (Env × Option Event)) :
    (∀ done, done <+: inputs → TypesGranted (run commandStep inboundListener done)) ↔
      Along commandStep MyeventsGranted inboundListener inputs := by
  rw [← always_iff_along (I := GrantInv) (P := EventListGranted)
    (fun _ input inv => commandStep_grantInv inv input)
    (fun _ input inv granted => commandStep_granted_iff inv granted input)
    inboundListener_grantInv (fun restricted => nomatch restricted.authEvents)]
  have inv : ∀ done, GrantInv (run commandStep inboundListener done) :=
    run_keeps_all (P := GrantInv) (fun _ input inv => commandStep_grantInv inv input)
      inboundListener_grantInv
  exact forall_congr' fun done => forall_congr' fun _ => typesGranted_iff (inv done)

/-- A switch with one user, who is granted the type `HEARTBEAT`. -/
def heartbeatEnv : Env :=
  { (default : Env) with
    locateUser := fun _ _ => some ⟨[], [],
      [("esl-password", "pw"), ("esl-allowed-events", "HEARTBEAT")]⟩ }

/-- After `myevents` a restricted listener is sent events of a type that was not granted. -/
theorem myevents_not_granted :
    let l := run commandStep inboundListener
      [(heartbeatEnv, some (packetOf ["userauth joe@example:pw"])),
        (heartbeatEnv, some (packetOf ["myevents abc"]))]
    Restricted l ∧ l.eventList .channelAnswer = true ∧ l.allowedEventList .channelAnswer = false ∧
      eventHandlerSends (fun _ _ => false) l (eventAddHeaderString (eventCreatePlain .channelAnswer)
        Stack.bottom "Unique-ID" (some "abc")) = true := by
  refine ⟨⟨?_, ?_⟩, ?_, ?_, ?_⟩
  all_goals decide +kernel

end FreeSwitch
