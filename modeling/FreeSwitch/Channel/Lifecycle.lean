/-
**The lifecycle of a channel under concurrent calls.**

A hangup tests the state without `state_mutex` and stores `CS_HANGUP` later without testing it
again. Whatever moves the channel on between the two is undone by the store, and a cause that was
set in between is overwritten.

* `lifecycle_of_undisturbed`: which runs keep the lifecycle;
* `hung_up_for_good`: what no interleaving undoes.
-/

import FreeSwitch.Channel.State

namespace FreeSwitch

open ChannelCore ChannelState Exchange List Option Run

/-! ### What a turn leaves alone -/

namespace ChannelCore

structure Alike (before after : ChannelCore) : Prop where
  state : after.state = before.state
  cause : after.hangupCause = before.hangupCause
  flag : after.ocfHangup = before.ocfHangup
  hangups : after.hangups = before.hangups

variable (ch : ChannelCore)

theorem Alike.refl : Alike ch ch := ⟨rfl, rfl, rfl, rfl⟩

theorem Alike.trans {a b c : ChannelCore} (first : Alike a b) (second : Alike b c) : Alike a c :=
  ⟨second.state.trans first.state, second.cause.trans first.cause, second.flag.trans first.flag,
    second.hangups.trans first.hangups⟩

variable (created : Bool)

theorem alike_fire (event : ChannelEvent) (other : event.isHangup = false) :
    Alike ch (ch.fire created event) := by
  cases created with
  | false => exact .refl ch
  | true => exact ⟨rfl, rfl, rfl, by simp [hangups, fire, other]⟩

theorem alike_setCallstate (callstate : Callstate) :
    Alike ch (ch.setCallstate created callstate) := by
  have changed : Alike ch { ch with callstate := callstate } := ⟨rfl, rfl, rfl, rfl⟩
  unfold setCallstate
  split
  · exact .refl ch
  · exact changed.trans (alike_fire _ created _ rfl)

theorem alike_clearFlag (flag : ChannelFlag) : Alike ch (ch.clearFlag created flag) := by
  have cleared : Alike ch { ch with flags := ch.flags.filter (· != flag) } := ⟨rfl, rfl, rfl, rfl⟩
  unfold clearFlag
  dsimp only
  split
  · refine cleared.trans ?_
    split
    · exact (alike_setCallstate _ _ _).trans (alike_setCallstate _ _ _)
    · exact alike_setCallstate _ _ _
  · exact cleared

theorem alike_releaseHold : Alike ch (ch.releaseHold created) := by
  unfold releaseHold
  split
  · refine (alike_clearFlag ch created .legHolding).trans ?_
    exact (alike_fire _ created _ rfl).trans ⟨rfl, rfl, rfl, rfl⟩
  · exact .refl ch

theorem alike_setRunningState (state : ChannelState) :
    Alike ch (ch.setRunningState created state) := by
  have running : Alike ch { ch with runningState := state } := ⟨rfl, rfl, rfl, rfl⟩
  unfold setRunningState
  dsimp only
  split
  · refine running.trans (Alike.trans ?_ (alike_fire _ created _ rfl))
    split
    · split
      · exact alike_setCallstate _ _ _
      · split
        · exact alike_setCallstate _ _ _
        · split
          · exact alike_setCallstate _ _ _
          · exact .refl _
    · exact .refl _
  · exact running

/-- **What `switch_channel_perform_set_state` does**: nothing, or a step up to or from a state below
`CS_HANGUP`; it sets a cause only in going to `CS_HANGUP` without one. -/
theorem setState_cases {ch after : ChannelCore} {state : ChannelState}
    (done : ch.setState state = some after) :
    after = ch ∨ (after.state = state ∧ after.ocfHangup = ch.ocfHangup ∧
      after.hangups = ch.hangups ∧ (hangup ≤ ch.state → ch.state < state) ∧
      after.hangupCause = ch.causeIn state) := by
  unfold setState at done
  split_ifs at done with absent same back may late
  · exact .inl (some.inj done).symm
  · exact .inl (some.inj done).symm
  · obtain rfl := some.inj done
    refine .inr ⟨rfl, rfl, rfl, fun hung => ?_, rfl⟩
    have up : ¬ state < ch.state := fun less => back ⟨hung, less⟩
    have apart : ch.state.number ≠ state.number := fun equal =>
      same (number_injective equal)
    rw [lt_def] at up ⊢
    omega
  · exact .inl (some.inj done).symm

end ChannelCore

/-! ### Turns -/

def Call.owns : Call → Bool
  | .claimed ok _ | .released ok _ => ok
  | .tested _ | .stored _ | .caused => true
  | _ => false

def Call.early : Call → Bool
  | .claimed ok _ | .released ok _ => ok
  | .tested _ => true
  | _ => false

def Call.late : Call → Bool
  | .stored _ | .caused => true
  | _ => false

/-- **What a turn can do** to the channel and to its call. -/
inductive Moves (ch : ChannelCore) : Call → ChannelCore → Call → Prop where
  | aside {call after next} (alike : ch.Alike after)
      (kept : next.owns = false ∨
        ∃ ok cause, call = .claimed ok cause ∧ next = .released ok cause) :
      Moves ch call after next
  /-- `switch_channel_perform_set_state` returns. -/
  | goes {state result after} (done : ch.setState state = some after) :
      Moves ch (.setState state) after (.returned result)
  | claims (cause : Nat) :
      Moves ch (.hangup cause) { ch with ocfHangup := true } (.claimed (!ch.ocfHangup) cause)
  | tests {cause after} (alike : ch.Alike after) :
      Moves ch (.released true cause) after (.tested cause)
  | stores (cause : Nat) : Moves ch (.tested cause) { ch with state := .hangup } (.stored cause)
  | causes (cause : Nat) : Moves ch (.stored cause) { ch with hangupCause := cause } .caused
  | fires (created : Bool) :
      Moves ch .caused (ch.fire created (.hangup ch.state)) (.returned ch.state)

variable {call next : Call} {ch : ChannelCore} {x : Exchange} {turns : List Turn} {i : Nat}

theorem moves_next {after : ChannelCore} {created : Bool}
    (turn : call.next ch created = some (after, next)) : Moves ch call after next := by
  cases call with
  | setState state =>
    obtain ⟨result, done, same⟩ := map_eq_some_iff.mp turn
    obtain ⟨rfl, rfl⟩ := Prod.mk.inj same
    exact .goes done
  | setRunningState state =>
    cases turn
    exact .aside ⟨rfl, rfl, rfl, rfl⟩ (.inl rfl)
  | flagsMoved state =>
    cases turn
    exact .aside (ch.alike_setRunningState created state) (.inl rfl)
  | hangup cause =>
    cases turn
    exact .claims cause
  | claimed ok cause =>
    cases turn
    exact .aside (ch.alike_releaseHold created) (.inr ⟨ok, cause, rfl, rfl⟩)
  | released ok cause =>
    have alike := ch.alike_clearFlag created .blockState
    cases ok with
    | false =>
      cases turn
      exact .aside (.refl ch) (.inl rfl)
    | true =>
      cases turn
      split
      · exact .tests alike
      · exact .aside alike (.inl rfl)
  | tested cause =>
    cases turn
    exact .stores cause
  | stored cause =>
    cases turn
    exact .causes cause
  | caused =>
    cases turn
    exact .fires created
  | returned state =>
    cases turn
    exact .aside (.refl ch) (.inl rfl)

theorem turn_cases (x : Exchange) (t : Turn) :
    ((x.turn t).channel = x.channel ∧ (x.turn t).calls = x.calls) ∨
    ∃ call next, x.aborted = false ∧ x.calls[t.call]? = some call ∧
      Moves x.channel call (x.turn t).channel next ∧ (x.turn t).calls = x.calls.set t.call next := by
  unfold turn
  split
  · exact .inl ⟨rfl, rfl⟩
  · next running =>
    split
    · exact .inl ⟨rfl, rfl⟩
    · next call found =>
      split
      · exact .inl ⟨rfl, rfl⟩
      · next after next' moved =>
        refine .inr ⟨call, next', by simpa using running, found, moves_next moved, rfl⟩

/-! ### What every turn keeps -/

theorem Call.owns_of_early (early : call.early) : call.owns := by
  cases call <;> simp_all [owns, Call.early]

theorem Call.owns_of_late (late : call.late) : call.owns := by
  cases call <;> simp_all [owns, Call.late]

/-- **At most one hangup has the flag**, and its event is not fired yet; the state and the cause as
far as they do not depend on who is quicker. -/
structure Owners (x : Exchange) : Prop where
  single : ∀ (i j : Nat) (c d : Call),
    x.calls[i]? = some c → x.calls[j]? = some d → c.owns → d.owns → i = j
  flagged : ∀ c ∈ x.calls, c.owns → x.channel.ocfHangup = true
  unfired : ∀ c ∈ x.calls, c.owns → x.channel.hangups = 0
  unclaimed : x.channel.ocfHangup = false → x.channel.hangups = 0
  once : x.channel.hangups ≤ 1
  unset : x.channel.state < .hangup → x.channel.hangupCause = 0
  hung : ∀ c ∈ x.calls, c.late → hangup ≤ x.channel.state
  set : x.channel.ocfHangup = false ∨ (∃ c ∈ x.calls, c.early) →
    x.channel.state = .hangup → x.channel.hangupCause ≠ 0

theorem Exchange.Fresh.owners (fresh : x.Fresh) : Owners x := by
  have idle : ∀ c ∈ x.calls, ¬ c.owns := by
    intro c member
    rcases fresh.begun c member with ⟨state, rfl⟩ | ⟨state, rfl⟩ | ⟨cause, rfl⟩ <;> exact Bool.false_ne_true
  refine ⟨fun i j c d found _ owns => absurd owns (idle c (mem_of_getElem? found)),
    fun c member owns => absurd owns (idle c member),
    fun c member owns => absurd owns (idle c member),
    fun _ => fresh.silent, fresh.silent ▸ Nat.zero_le 1, fun _ => fresh.unset,
    fun c member late => absurd (Call.owns_of_late late) (idle c member), fun _ hung => ?_⟩
  exact absurd fresh.below (by rw [hung]; decide)

/-- Nothing new is owned: calls that own, or are early or late, did so before. -/
structure Fewer (calls calls' : List Call) : Prop where
  owns : ∀ (i : Nat) (c : Call), calls'[i]? = some c → c.owns →
    ∃ d : Call, calls[i]? = some d ∧ d.owns
  early : ∀ c ∈ calls', c.early → ∃ d ∈ calls, d.early
  late : ∀ c ∈ calls', c.late → ∃ d ∈ calls, d.late

theorem Fewer.refl (calls : List Call) : Fewer calls calls :=
  ⟨fun _ c found owns => ⟨c, found, owns⟩, fun c member early => ⟨c, member, early⟩,
    fun c member late => ⟨c, member, late⟩⟩

theorem fewer_set {calls : List Call} (found : calls[i]? = some call) (owns : next.owns → call.owns)
    (early : next.early → call.early) (late : next.late → call.late) :
    Fewer calls (calls.set i next) := by
  have member := mem_of_getElem? found
  refine ⟨fun k c there has => ?_, fun c there has => ?_, fun c there has => ?_⟩
  · rw [getElem?_set] at there
    split at there
    · next same =>
      obtain rfl := same
      split at there
      · obtain rfl := some.inj there
        exact ⟨call, found, owns has⟩
      · exact absurd there (by simp)
    · exact ⟨c, there, has⟩
  · rcases mem_or_eq_of_mem_set there with old | rfl
    · exact ⟨c, old, has⟩
    · exact ⟨call, member, early has⟩
  · rcases mem_or_eq_of_mem_set there with old | rfl
    · exact ⟨c, old, has⟩
    · exact ⟨call, member, late has⟩

theorem fewer_idle {calls : List Call} (found : calls[i]? = some call) (idle : next.owns = false) :
    Fewer calls (calls.set i next) := by
  have idle : ¬ next.owns := by simp [idle]
  exact fewer_set found (fun owns => absurd owns idle)
    (fun early => absurd (Call.owns_of_early early) idle)
    fun late => absurd (Call.owns_of_late late) idle

theorem Owners.of_fewer {y : Exchange} (owners : Owners x) (alike : x.channel.Alike y.channel)
    (fewer : Fewer x.calls y.calls) : Owners y := by
  have owned : ∀ c ∈ y.calls, c.owns → ∃ d ∈ x.calls, d.owns := by
    intro c member owns
    obtain ⟨i, found⟩ := mem_iff_getElem?.mp member
    obtain ⟨d, there, has⟩ := fewer.owns i c found owns
    exact ⟨d, mem_of_getElem? there, has⟩
  constructor
  · intro i j c d first second ownsFirst ownsSecond
    obtain ⟨c', first', has⟩ := fewer.owns i c first ownsFirst
    obtain ⟨d', second', has'⟩ := fewer.owns j d second ownsSecond
    exact owners.single i j c' d' first' second' has has'
  · intro c member owns
    obtain ⟨d, there, has⟩ := owned c member owns
    rw [alike.flag]
    exact owners.flagged d there has
  · intro c member owns
    obtain ⟨d, there, has⟩ := owned c member owns
    rw [alike.hangups]
    exact owners.unfired d there has
  · rw [alike.flag, alike.hangups]
    exact owners.unclaimed
  · rw [alike.hangups]
    exact owners.once
  · rw [alike.state, alike.cause]
    exact owners.unset
  · intro c member late
    obtain ⟨d, there, has⟩ := fewer.late c member late
    rw [alike.state]
    exact owners.hung d there has
  · rw [alike.flag, alike.state, alike.cause]
    rintro (free | ⟨c, member, early⟩)
    · exact owners.set (.inl free)
    · exact owners.set (.inr (fewer.early c member early))

theorem Owners.next_at (owners : Owners x) {k : Nat} {c : Call} (found : x.calls[i]? = some call)
    (owns : call.owns) (there : (x.calls.set i next)[k]? = some c) (has : c.owns) : k = i := by
  rw [getElem?_set] at there
  split at there
  · next same => exact same.symm
  · exact owners.single k i c call there found has owns

theorem Owners.next_only (owners : Owners x) {c : Call} (found : x.calls[i]? = some call)
    (owns : call.owns) (member : c ∈ x.calls.set i next) (has : c.owns) : c = next := by
  obtain ⟨k, there⟩ := mem_iff_getElem?.mp member
  obtain rfl := owners.next_at found owns there has
  rw [getElem?_set_self (List.getElem?_eq_some_iff.mp found).1] at there
  exact (some.inj there).symm

section Moves

variable {x : Exchange} {i : Nat} (owners : Owners x)

include owners

theorem Owners.goes {y : Exchange} {state : ChannelState} (fewer : Fewer x.calls y.calls)
    (reached : y.channel.state = state) (flag : y.channel.ocfHangup = x.channel.ocfHangup)
    (hangups : y.channel.hangups = x.channel.hangups)
    (up : hangup ≤ x.channel.state → x.channel.state < state)
    (cause : y.channel.hangupCause = x.channel.causeIn state) : Owners y := by
  -- everything but the state and the cause is as in a turn that leaves the channel alike
  have rest := owners.of_fewer (y := { y with channel :=
    { y.channel with state := x.channel.state, hangupCause := x.channel.hangupCause } })
    ⟨rfl, rfl, flag, hangups⟩ fewer
  refine ⟨rest.single, rest.flagged, rest.unfired, rest.unclaimed, rest.once, fun below => ?_,
    fun c member late => ?_, fun early hung => ?_⟩
  · rw [reached] at below
    have other : state ≠ .hangup := by
      rintro rfl
      exact absurd below (by decide)
    have before : x.channel.state < .hangup := by
      rw [lt_def] at below ⊢
      by_contra above
      have := up (le_def.mpr (not_lt.mp above))
      rw [lt_def] at this
      omega
    rw [cause, causeIn, if_neg (by simp [other])]
    exact owners.unset before
  · have hung := rest.hung c member late
    have := up hung
    rw [reached]
    rw [le_def] at hung ⊢
    rw [lt_def] at this
    simp only at hung
    omega
  · rw [reached] at hung
    rw [cause, causeIn]
    split
    · decide
    · next kept => exact fun zero => kept ⟨hung, zero⟩

variable {aborted : Bool} {cause : Nat}

theorem Owners.claims (found : x.calls[i]? = some (.hangup cause)) :
    Owners ⟨{ x.channel with ocfHangup := true },
      x.calls.set i (.claimed (!x.channel.ocfHangup) cause), aborted⟩ := by
  cases free : x.channel.ocfHangup with
  | true => exact owners.of_fewer ⟨rfl, rfl, free.symm, rfl⟩ (fewer_idle found rfl)
  | false =>
    -- the flag was free, so no other call owned
    have nobody : ∀ c ∈ x.calls, ¬ c.owns := fun c member owns => by
      rw [owners.flagged c member owns] at free
      exact Bool.noConfusion free
    have newest : ∀ (k : Nat) (c : Call),
        (x.calls.set i (.claimed (!false) cause))[k]? = some c → c.owns → k = i := by
      intro k c there owns
      rw [getElem?_set] at there
      split at there
      · next same => exact same.symm
      · exact absurd owns (nobody c (mem_of_getElem? there))
    have silent := owners.unclaimed free
    refine ⟨fun k l c d first second ownsFirst ownsSecond => ?_, fun _ _ _ => rfl,
      fun _ _ _ => silent, fun _ => silent, owners.once, owners.unset, fun c member late => ?_,
      fun _ => owners.set (.inl free)⟩
    · exact (newest k c first ownsFirst).trans (newest l d second ownsSecond).symm
    · rcases mem_or_eq_of_mem_set member with old | rfl
      · exact owners.hung c old late
      · exact absurd late (by simp [Call.late])

/-- The call that owns goes on, with the channel in `CS_HANGUP` or behind it. -/
theorem Owners.passes {channel : ChannelCore} (found : x.calls[i]? = some call)
    (owns : call.owns) (late : ¬ next.early) (flag : channel.ocfHangup = x.channel.ocfHangup)
    (hangups : channel.hangups = x.channel.hangups) (hung : hangup ≤ channel.state) :
    Owners ⟨channel, x.calls.set i next, aborted⟩ := by
  have member := mem_of_getElem? found
  have flagged : channel.ocfHangup = true := flag.trans (owners.flagged _ member owns)
  have silent := hangups.trans (owners.unfired _ member owns)
  refine ⟨fun k l c d first second ownsFirst ownsSecond => ?_, fun _ _ _ => flagged,
    fun _ _ _ => silent, fun _ => silent, hangups ▸ owners.once, fun below => ?_, fun _ _ _ => hung, ?_⟩
  · have first' := owners.next_at found owns first ownsFirst
    exact first'.trans (owners.next_at found owns second ownsSecond).symm
  · rw [le_def] at hung
    rw [lt_def] at below
    simp only at below
    omega
  · rintro (free | ⟨c, there, early⟩)
    · exact absurd (flagged.symm.trans free) (by decide)
    · rw [owners.next_only found owns there (Call.owns_of_early early)] at early
      exact absurd early late

theorem Owners.fires {created : Bool} (found : x.calls[i]? = some .caused) :
    Owners ⟨x.channel.fire created (.hangup x.channel.state),
      x.calls.set i (.returned x.channel.state), aborted⟩ := by
  have member := mem_of_getElem? found
  have flagged := owners.flagged _ member rfl
  have silent := owners.unfired _ member rfl
  have nobody : ∀ c ∈ x.calls.set i (.returned x.channel.state), ¬ c.owns := by
    intro c there owns
    rw [owners.next_only found rfl there owns] at owns
    exact absurd owns (by simp [Call.owns])
  have once : (x.channel.fire created (.hangup x.channel.state)).hangups ≤ 1 := by
    cases created with
    | false => exact owners.once
    | true =>
      have : x.channel.fired.countP ChannelEvent.isHangup = 0 := silent
      simp [hangups, fire, this, ChannelEvent.isHangup]
  have same : (x.channel.fire created (.hangup x.channel.state)).ocfHangup = x.channel.ocfHangup ∧
      (x.channel.fire created (.hangup x.channel.state)).state = x.channel.state ∧
      (x.channel.fire created (.hangup x.channel.state)).hangupCause = x.channel.hangupCause := by
    cases created <;> exact ⟨rfl, rfl, rfl⟩
  obtain ⟨flag, state, cause⟩ := same
  refine ⟨fun k l c d first _ owns => ?_, fun c there owns => absurd owns (nobody c there),
    fun c there owns => absurd owns (nobody c there), fun free => ?_, once, fun below => ?_,
    fun c there late => absurd (Call.owns_of_late late) (nobody c there), ?_⟩
  · exact absurd owns (nobody c (mem_of_getElem? first))
  · exact absurd (flagged.symm.trans (flag.symm.trans free)) (by decide)
  · exact cause.trans (owners.unset (state ▸ below))
  · rintro (free | ⟨c, there, early⟩)
    · exact absurd (flagged.symm.trans (flag.symm.trans free)) (by decide)
    · exact absurd (Call.owns_of_early early) (nobody c there)

end Moves

theorem turn_owners (t : Turn) (owners : Owners x) : Owners (x.turn t) := by
  rcases turn_cases x t with ⟨channel, calls⟩ | ⟨call, next, -, found, moves, calls⟩
  · exact owners.of_fewer (channel ▸ .refl _) (calls ▸ .refl _)
  have member := mem_of_getElem? found
  generalize x.turn t = y at *
  obtain ⟨ch, ycalls, aborted⟩ := y
  simp only at moves calls
  subst calls
  cases moves with
  | aside alike kept =>
    refine owners.of_fewer alike ?_
    rcases kept with idle | ⟨ok, cause, rfl, rfl⟩
    · exact fewer_idle found idle
    · exact fewer_set found id id id
  | tests alike => exact owners.of_fewer alike (fewer_set found (fun _ => rfl) (fun _ => rfl) nofun)
  | goes done =>
    rcases setState_cases done with rfl | ⟨state, flag, hangups, up, cause⟩
    · exact owners.of_fewer (.refl _) (fewer_idle found rfl)
    · exact owners.goes (fewer_idle found rfl) state flag hangups up cause
  | claims cause => exact owners.claims found
  | stores cause => exact owners.passes found rfl nofun rfl rfl (Nat.le_refl _)
  | causes cause => exact owners.passes found rfl nofun rfl rfl (owners.hung _ member rfl)
  | fires created => exact owners.fires found

/-! ### The lifecycle -/

/-- From `CS_HANGUP` on the state does not go back, and a cause once set stays. -/
structure Later (before after : ChannelCore) : Prop where
  state : hangup ≤ before.state → before.state ≤ after.state
  cause : before.hangupCause ≠ 0 → after.hangupCause = before.hangupCause

theorem Later.refl (ch : ChannelCore) : Later ch ch := ⟨fun _ => Nat.le_refl _, fun _ => rfl⟩

theorem Later.trans {a b c : ChannelCore} (first : Later a b) (second : Later b c) :
    Later a c := by
  refine ⟨fun hung => ?_, fun set => ?_⟩
  · have toSecond := first.state hung
    exact Nat.le_trans toSecond (second.state (Nat.le_trans hung toSecond))
  · have same := first.cause set
    rw [second.cause (by rwa [same]), same]

/-- **The lifecycle in a run**: between any two moments the state and the cause are kept, and
`CHANNEL_HANGUP` is fired at most once. -/
def Lifecycle (x : Exchange) (turns : List Turn) : Prop :=
  ∀ done more, done ++ more <+: turns →
    Later (run turn x done).channel (run turn x (done ++ more)).channel ∧
    (run turn x (done ++ more)).channel.hangups ≤ 1

/-- The cause of a hangup whose next turn stores `CS_HANGUP`. -/
def Call.storing : Call → Option Nat
  | .tested cause => some cause
  | _ => none

theorem Call.eq_tested_of_storing {cause : Nat} (storing : cause ∈ call.storing) :
    call = .tested cause := by
  cases call with
  | tested cause' => exact congrArg Call.tested (some.inj storing)
  | _ => exact absurd storing (not_mem_none cause)

/-- The store of `CS_HANGUP` finds the channel still below it, or hung up for the same cause. -/
def Undisturbed (x : Exchange) (t : Turn) : Prop :=
  x.aborted = false → ∀ call ∈ x.calls[t.call]?, ∀ cause ∈ call.storing,
    x.channel.state < .hangup ∨ (x.channel.state = .hangup ∧ x.channel.hangupCause = cause)

instance (x : Exchange) (t : Turn) : Decidable (Undisturbed x t) :=
  inferInstanceAs (Decidable (_ → ∀ call ∈ x.calls[t.call]?, ∀ cause ∈ call.storing, _ ∨ _))

def CausesAgree (x : Exchange) : Prop :=
  ∀ cause, .stored cause ∈ x.calls → x.channel.hangupCause = 0 ∨ x.channel.hangupCause = cause

theorem Later.of_alike {before after : ChannelCore} (alike : before.Alike after) :
    Later before after :=
  ⟨fun _ => Nat.le_of_eq (congrArg number alike.state.symm), fun _ => alike.cause⟩

theorem CausesAgree.of_set {aborted : Bool} (agree : CausesAgree x)
    (same : ch.hangupCause = x.channel.hangupCause) (other : ∀ cause, next ≠ .stored cause) :
    CausesAgree ⟨ch, x.calls.set i next, aborted⟩ := by
  intro cause member
  rcases mem_or_eq_of_mem_set member with old | new
  · exact same ▸ agree cause old
  · exact absurd new.symm (other cause)

theorem later_setState {state : ChannelState} (owners : Owners x) (reached : ch.state = state)
    (up : hangup ≤ x.channel.state → x.channel.state < state)
    (cause : ch.hangupCause = x.channel.causeIn state) :
    Later x.channel ch ∧
      ((∃ c, .stored c ∈ x.calls) → ch.hangupCause = x.channel.hangupCause) := by
  refine ⟨⟨fun hung => ?_, fun set => ?_⟩, fun ⟨c, member⟩ => ?_⟩
  · rw [reached]
    exact Nat.le_of_lt (up hung)
  · rw [cause, causeIn, if_neg fun both => set both.2]
  · have hung := owners.hung _ member rfl
    have above := up hung
    rw [cause, causeIn, if_neg]
    rintro ⟨rfl, -⟩
    exact absurd above (Nat.not_lt.mpr hung)

theorem turn_later {t : Turn} (owners : Owners x) (agree : CausesAgree x)
    (undisturbed : Undisturbed x t) :
    CausesAgree (x.turn t) ∧ Later x.channel (x.turn t).channel := by
  rcases turn_cases x t with ⟨channel, calls⟩ | ⟨call, next, running, found, moves, calls⟩
  · refine ⟨fun cause member => ?_, channel ▸ .refl _⟩
    rw [channel]
    exact agree cause (calls ▸ member)
  have undisturbed := undisturbed running
  generalize x.turn t = y at *
  obtain ⟨ch, ycalls, aborted⟩ := y
  simp only at moves calls
  subst calls
  cases moves with
  | aside alike kept =>
    refine ⟨agree.of_set alike.cause fun cause stored => ?_, .of_alike alike⟩
    rcases kept with none | ⟨ok, cause', rfl, rfl⟩
    · rw [stored] at none
      exact Bool.noConfusion none
    · exact Call.noConfusion stored
  | goes done =>
    rcases setState_cases done with rfl | ⟨state, -, -, up, cause⟩
    · exact ⟨agree.of_set rfl nofun, .refl _⟩
    · obtain ⟨later, kept⟩ := later_setState owners state up cause
      refine ⟨fun c member => ?_, later⟩
      rcases mem_or_eq_of_mem_set member with old | new
      · exact kept ⟨c, old⟩ ▸ agree c old
      · exact Call.noConfusion new
  | claims cause => exact ⟨agree.of_set rfl nofun, ⟨fun _ => Nat.le_refl _, fun _ => rfl⟩⟩
  | tests alike => exact ⟨agree.of_set alike.cause nofun, .of_alike alike⟩
  | stores cause =>
    have fine := undisturbed _ found cause rfl
    constructor
    · intro c member
      have only := owners.next_only found rfl member rfl
      obtain rfl := Call.stored.inj only
      rcases fine with below | ⟨-, same⟩
      · exact .inl (owners.unset below)
      · exact .inr same
    · refine ⟨fun hung => ?_, fun _ => rfl⟩
      rcases fine with below | ⟨same, -⟩
      · exact absurd hung (Nat.not_le.mpr below)
      · exact Nat.le_of_eq (congrArg number same)
  | causes cause =>
    constructor
    · intro c member
      exact Call.noConfusion (owners.next_only found rfl member rfl)
    · refine ⟨fun _ => Nat.le_refl _, fun set => ?_⟩
      rcases agree cause (mem_of_getElem? found) with zero | same
      · exact absurd zero set
      · exact same.symm
  | fires created =>
    refine ⟨agree.of_set ?_ nofun, ?_⟩
    · cases created <;> rfl
    · cases created <;> exact ⟨fun _ => Nat.le_refl _, fun _ => rfl⟩

def Call.writing : Call → Bool
  | .stored _ => true
  | _ => false

def Exchange.Settled (x : Exchange) : Prop := ∀ call ∈ x.calls, ¬ call.writing

instance (x : Exchange) : Decidable x.Settled :=
  inferInstanceAs (Decidable (∀ call ∈ x.calls, ¬ call.writing))

theorem stored_written {cause : Nat} (found : x.calls[i]? = some (.stored cause))
    (settled : (run turn x turns).Settled) :
    ∃ done, done <+: turns ∧ (run turn x done).channel.hangupCause = cause := by
  induction turns generalizing x with
  | nil => exact absurd rfl (settled _ (mem_of_getElem? found))
  | cons t turns ih =>
    by_cases still : (x.turn t).calls[i]? = some (.stored cause)
    · obtain ⟨done, begins, written⟩ := ih still settled
      exact ⟨t :: done, cons_prefix_cons.mpr ⟨rfl, begins⟩, written⟩
    · -- only a turn of the call itself takes it further, and that turn stores the cause
      refine ⟨[t], ⟨turns, rfl⟩, ?_⟩
      rcases turn_cases x t with ⟨-, calls⟩ | ⟨call, next, running, there, -, calls⟩
      · exact absurd (calls ▸ found) still
      have mine : t.call = i := by
        by_contra other
        exact still (by rw [calls, getElem?_set_ne other, found])
      simp [turn, running, mine, found, Call.next]

theorem Lifecycle.tail {t : Turn} (kept : Lifecycle x (t :: turns)) :
    Lifecycle (x.turn t) turns := fun done more begins =>
  kept (t :: done) more (cons_prefix_cons.mpr ⟨rfl, begins⟩)

theorem undisturbed_of_lifecycle (owners : Owners x) (settled : (run turn x turns).Settled)
    (kept : Lifecycle x turns) :
    Along turn Undisturbed x turns := by
  induction turns generalizing x with
  | nil => trivial
  | cons t turns ih =>
    refine ⟨fun running call found cause storing => ?_, ih (turn_owners t owners) settled kept.tail⟩
    obtain rfl := Call.eq_tested_of_storing storing
    replace found : x.calls[t.call]? = some (.tested cause) := found
    by_cases below : x.channel.state < .hangup
    · exact .inl below
    have hung : hangup ≤ x.channel.state := Nat.not_lt.mp below
    have turned : x.turn t = { x with
        channel := { x.channel with state := .hangup }
        calls := x.calls.set t.call (.stored cause) } := by
      simp [turn, running, found, Call.next]
    have back : (x.turn t).channel.state = .hangup := by rw [turned]
    have same : x.channel.state = .hangup := by
      have up := (kept [] [t] ⟨turns, rfl⟩).1.state hung
      simp only [nil_append, run_cons, run_nil, back] at up
      exact number_injective (Nat.le_antisymm up hung)
    have set : x.channel.hangupCause ≠ 0 := owners.set (.inr ⟨_, mem_of_getElem? found, rfl⟩) same
    have stored : (x.turn t).calls[t.call]? = some (.stored cause) := by
      rw [turned]
      exact getElem?_set_self (List.getElem?_eq_some_iff.mp found).1
    obtain ⟨done, begins, written⟩ := stored_written stored settled
    have still := (kept [] (t :: done) (cons_prefix_cons.mpr ⟨rfl, begins⟩)).1.cause set
    simp only [nil_append, run_cons, run_nil, written] at still
    exact .inr ⟨same, still.symm⟩

/-- **Every run of undisturbed turns keeps the lifecycle**, and a run that keeps it and leaves no
call between its two stores is one of undisturbed turns. -/
theorem lifecycle_of_undisturbed {x : Exchange} (fresh : x.Fresh) (turns : List Turn) :
    (Along turn Undisturbed x turns → Lifecycle x turns) ∧
    ((run turn x turns).Settled → Lifecycle x turns → Along turn Undisturbed x turns) := by
  refine ⟨fun undisturbed done more begins => ?_,
    fun settled kept => undisturbed_of_lifecycle fresh.owners settled kept⟩
  have agree : CausesAgree x := fun cause _ => .inl fresh.unset
  have along := undisturbed.beginning begins
  have keeps : ∀ x t, Owners x ∧ CausesAgree x → Undisturbed x t →
      Owners (x.turn t) ∧ CausesAgree (x.turn t) := fun x t inv fine =>
    ⟨turn_owners t inv.1, (turn_later inv.1 inv.2 fine).1⟩
  have mid := run_keeps keeps ⟨fresh.owners, agree⟩ (along.beginning (prefix_append done more))
  refine ⟨?_, (run_keeps keeps ⟨fresh.owners, agree⟩ along).1.once⟩
  rw [run_append]
  have trans : ∀ {x y z : Exchange}, Later x.channel y.channel → Later y.channel z.channel →
    Later x.channel z.channel := Later.trans
  exact run_related (R := fun x y => Later x.channel y.channel) (fun x => .refl x.channel) trans
    (fun x t inv fine => ⟨keeps x t inv fine, (turn_later inv.1 inv.2 fine).2⟩) mid along.ending

def newChannel : ChannelCore :=
  { state := .new, runningState := .none, callstate := .down, hangupCause := 0, ocfHangup := false,
    inbound := true, flags := [], stateFlags := [], fired := [] }

/-- Two hangups and a walk through the last states, one call after the other. -/
theorem lifecycle_of_undisturbed_hangups :
    let x : Exchange := ⟨newChannel, [.hangup 17, .setState .reporting, .hangup 31], false⟩
    let turns : List Turn := [⟨0, true⟩, ⟨0, true⟩, ⟨0, true⟩, ⟨2, true⟩, ⟨0, true⟩, ⟨0, true⟩,
      ⟨1, true⟩, ⟨0, true⟩, ⟨2, true⟩, ⟨2, true⟩]
    x.Fresh ∧ (run turn x turns).Settled ∧ Along turn Undisturbed x turns ∧
      (run turn x turns).channel.state = .reporting ∧ Lifecycle x turns := by
  intro x turns
  have fresh : x.Fresh := ⟨by decide, rfl, rfl, rfl, by simp [x]⟩
  have along : Along turn Undisturbed x turns := by decide
  exact ⟨fresh, by decide, along, by decide, (lifecycle_of_undisturbed fresh turns).1 along⟩

/-- **A hangup that is overtaken** takes a channel that is already reporting back to `CS_HANGUP`,
and replaces the cause that was set. -/
theorem hangup_after_reporting : let x : Exchange :=
      ⟨newChannel, [.hangup 17, .setState .hangup, .setState .reporting], false⟩
    let turns : List Turn := [⟨0, true⟩, ⟨0, true⟩, ⟨0, true⟩, ⟨1, true⟩, ⟨2, true⟩, ⟨0, true⟩,
      ⟨0, true⟩]
    x.Fresh ∧ ¬ Lifecycle x turns := by
  intro x turns
  refine ⟨⟨by decide, rfl, rfl, rfl, by simp [x]⟩, fun kept => ?_⟩
  have up := (kept (turns.take 5) [⟨0, true⟩] (by decide)).1.state (by decide)
  exact absurd up (by decide)

/-! ### What no interleaving undoes -/

theorem Moves.hung {after : ChannelCore} (moves : Moves ch call after next)
    (hung : hangup ≤ ch.state) : hangup ≤ after.state := by
  cases moves with
  | aside alike | tests alike =>
    rw [alike.state]
    exact hung
  | goes done =>
    rcases setState_cases done with rfl | ⟨reached, -, -, up, -⟩
    · exact hung
    · rw [reached]
      exact Nat.le_trans hung (Nat.le_of_lt (up hung))
  | claims | causes => exact hung
  | stores => exact Nat.le_refl _
  | fires created => cases created <;> exact hung

theorem turn_hung (x : Exchange) (t : Turn) (hung : hangup ≤ x.channel.state) :
    hangup ≤ (x.turn t).channel.state := by
  rcases turn_cases x t with ⟨same, -⟩ | ⟨call, next, -, -, moves, -⟩
  · rwa [same]
  · exact moves.hung hung

/-- **A channel that is hung up stays so**, in every interleaving, disturbed or not: it does not go
back below `CS_HANGUP`; before it there is no cause; and `CHANNEL_HANGUP` is fired at most once. -/
theorem hung_up_for_good {x : Exchange} (fresh : x.Fresh) (done more : List Turn) :
    let before := (run turn x done).channel
    let after := (run turn x (done ++ more)).channel
    (hangup ≤ before.state → hangup ≤ after.state) ∧
      (after.state < .hangup → after.hangupCause = 0) ∧ after.hangups ≤ 1 := by
  intro before after
  have owners : Owners (run turn x (done ++ more)) :=
    run_keeps_all (P := Owners) (fun _ t owners => turn_owners t owners) fresh.owners _
  refine ⟨fun hung => ?_, owners.unset, owners.once⟩
  show hangup ≤ (run turn x (done ++ more)).channel.state
  rw [run_append]
  exact run_keeps_all (P := fun x : Exchange => hangup ≤ x.channel.state) turn_hung hung more

theorem hung_up_for_good_overtaken :
    let x : Exchange := ⟨newChannel, [.hangup 17, .setState .hangup], false⟩
    x.Fresh ∧ hangup ≤ (run turn x ([⟨1, true⟩] ++ [⟨0, true⟩])).channel.state := by
  intro x
  have fresh : x.Fresh := ⟨by decide, rfl, rfl, rfl, by simp [x]⟩
  exact ⟨fresh, (hung_up_for_good fresh _ _).1 (by decide)⟩

end FreeSwitch
