/-
**Channels in a parking lot.**

When the runs of the valet parking application and the sweeps of `check_timeouts` do not get into each
other's way.

* `valet_safe`: what holds along orderly steps.
-/

import FreeSwitch.Lib.Run
import FreeSwitch.Valet.Table

namespace FreeSwitch

open CString Function List Option Run ValetRun ValetWorld

/-! ### Orderly steps -/

def ValetRun.parked (r : ValetRun) : Bool :=
  match r.pc with
  | .inserted | .counting false | .showing false | .playing => true
  | _ => false

/-- Behind its look-up, out of `next_id`, and neither parked nor through. -/
def ValetRun.taking (r : ValetRun) : Bool :=
  match r.pc with
  | .got => !r.isIn
  | .looked | .deleting | .clearing | .inserting => true
  | _ => false

/-- With no token in hand, parked, or through. -/
def ValetRun.resting (r : ValetRun) : Bool :=
  match r.pc with
  | .start | .look | .longest | .slot _ | .scan _ | .claim _ | .done => true
  | _ => r.parked

/-- No other one of `n` runs is between its look-up and its parking. -/
def ValetWorld.Quiet (n : Nat) (w : ValetWorld) (id : Nat) : Prop :=
  ∀ other < n, other ≠ id → (w.runs other).taking = false

instance ValetWorld.decidableQuiet (n : Nat) (w : ValetWorld) (id : Nat) :
    Decidable (w.Quiet n id) := by
  unfold Quiet
  infer_instance

/-- **Look-ups and sweeps in order**, of `n` runs. A run looks for its token only while no other one is
between its look-up and its parking; with `next_id`, which is called with `globals.mutex` held, only
explicit look-ups have to wait. A token that is found and that another run still has in hand is not
bridged yet, and its channel is located. A sweep comes only while every run has no token, is parked,
or is through. -/
def ValetWorld.Orderly (n : Nat) (w : ValetWorld) : ValetStep → Prop
  | .check _ => ∀ id < n, (w.runs id).resting = true
  | .run id e => id < n ∧
    match (w.runs id).pc, (w.runs id).goal with
    | .start, .auto .. => w.Quiet n id
    | .look, _ => w.globals = none ∧ w.Quiet n id
    | .looked, _ => ∀ t ∈ (w.runs id).token.bind w.heap, ∀ other < n, other ≠ id →
        (w.runs other).pc ≠ .done → (w.runs other).token = (w.runs id).token →
        t.bridged = false ∧ t.uuid ≠ [] ∧ e.located = true
    | _, _ => True

instance ValetWorld.decidableOrderly (n : Nat) (w : ValetWorld) (step : ValetStep) :
    Decidable (w.Orderly n step) := by
  unfold Orderly
  split
  · infer_instance
  · split <;> infer_instance

/-! ### What orderly steps keep -/

/-- In `next_id`, with `globals.mutex` held. -/
def ValetPc.inside : ValetPc → Bool
  | .longest | .slot _ | .scan _ | .test _ | .claim _ => true
  | _ => false

def ValetRun.seeks (r : ValetRun) : Bool := r.pc.inside || r.taking

/-- The run has a token of its own in the table. -/
def ValetRun.owns (r : ValetRun) : Bool :=
  match r.pc with
  | .got => r.isIn
  | .inserted | .counting _ | .showing _ | .playing | .ending => true
  | _ => false

/-- It has not begun to leave. -/
def ValetRun.idle (r : ValetRun) : Bool :=
  match r.pc with
  | .counting true | .showing true | .ending => false
  | _ => true

/-- What a run that looks for a slot has found. -/
def ValetWorld.Sought (w : ValetWorld) (r : ValetRun) : Prop :=
  match r.pc with
  | .longest | .slot _ => r.isIn = false
  | .test _ => r.isIn = false ∧ ∃ a ext, r.token = some a ∧ (ext, a) ∈ w.hash
  | .claim i => w.find (intText i) = none
  | .got => ∃ a ext, r.token = some a ∧ (ext, a) ∈ w.hash
  | .looked => r.token.elim (w.find r.ext = none) fun a => (r.ext, a) ∈ w.hash
  | .deleting => ∃ a, r.token = some a ∧ (r.ext, a) ∈ w.hash
  | .clearing => w.find r.ext = none ∧ ∃ a t, r.token = some a ∧ w.heap a = some t ∧ t.ext = r.ext
  | .inserting => w.find r.ext = none ∧ ∃ a t, r.token = some a ∧ w.heap a = some t ∧
      t.ext = r.ext ∧ t.timeout = 0
  | _ => True

/-- The run's own token is in the table; before it leaves, it cannot expire. -/
def ValetWorld.Owned (w : ValetWorld) (r : ValetRun) : Prop :=
  ∃ a, r.token = some a ∧ (r.ext, a) ∈ w.hash ∧
    (r.idle = true → ∀ t, w.heap a = some t → t.timeout = 0)

/-- **The invariant.** -/
structure ValetWorld.Good (n : Nat) (w : ValetWorld) : Prop where
  sane : w.fault = false
  table : w.Table
  later : ∀ id, n ≤ id → (w.runs id).pc = .start
  lock : ∀ id, (w.runs id).pc.inside = true → w.globals = some id
  one : ∀ id other, (w.runs id).seeks = true → (w.runs other).seeks = true → id = other
  sought : ∀ id, (w.runs id).seeks = true → w.Sought (w.runs id)
  free : ∀ id, (w.runs id).pc = .deleting → ∀ other, other ≠ id → (w.runs other).owns = true →
    (w.runs other).ext ≠ (w.runs id).ext
  owned : ∀ id, (w.runs id).owns = true → w.Owned (w.runs id)
  distinct : ∀ id other, (w.runs id).owns = true → (w.runs other).owns = true →
    (w.runs id).ext = (w.runs other).ext → id = other

section Good

variable {n : Nat} {w w' : ValetWorld} {id : Nat} {r : ValetRun}

/-- Tokens that are new or written anew have `timeout` 0 or as it was. -/
def ValetWorld.Untimed (w w' : ValetWorld) : Prop :=
  ∀ a t', w'.heap a = some t' → t'.timeout = 0 ∨ ∃ t, w.heap a = some t ∧ t'.timeout = t.timeout

theorem untimed_same (same : w'.heap = w.heap) : w.Untimed w' := by
  intro a t live
  exact .inr ⟨t, same ▸ live, rfl⟩

theorem untimed_update {a : Nat} {t : ValetToken} (same : w'.heap = update w.heap a (some t))
    (timeout : t.timeout = 0 ∨ ∃ old, w.heap a = some old ∧ t.timeout = old.timeout) :
    w.Untimed w' := by
  intro b t' live
  rw [same] at live
  by_cases here : b = a
  · subst here
    rw [update_self] at live
    cases live
    exact timeout
  · rw [update_of_ne here] at live
    exact .inr ⟨t', live, rfl⟩

theorem goto_runs (r : ValetRun) (runs : w'.runs = w.runs) {other : Nat} (differs : other ≠ id) :
    (w'.goto id r).runs other = w.runs other :=
  (update_of_ne differs ..).trans (congrFun runs other)

/-- **A step of the one run that looks for a slot.** -/
theorem ValetWorld.Good.seek (good : w.Good n) (few : id < n)
    (sole : ∀ other, other ≠ id → (w.runs other).seeks = false) (table : w'.Table)
    (untimed : w.Untimed w')
    (kept : ∀ other, other ≠ id → (w.runs other).owns = true → ∀ a,
      ((w.runs other).ext, a) ∈ w.hash → ((w.runs other).ext, a) ∈ w'.hash)
    (lock : r.pc.inside = true → w'.globals = some id) (sought : r.seeks = true → w'.Sought r)
    (free : r.pc = .deleting ∨ r.owns = true → ∀ other, other ≠ id → (w.runs other).owns = true →
      (w.runs other).ext ≠ r.ext)
    (owned : r.owns = true → w'.Owned r) (sane : w'.fault = w.fault := by rfl)
    (runs : w'.runs = w.runs := by rfl) : (w'.goto id r).Good n := by
  have here : (w'.goto id r).runs id = r := update_self ..
  have there {other : Nat} (differs : other ≠ id) := goto_runs r runs differs
  have quiet {other : Nat} (seeks : ((w'.goto id r).runs other).seeks = true) : other = id := by
    by_contra differs
    rw [there differs, sole other differs] at seeks
    cases seeks
  refine ⟨sane.trans good.sane, table.same rfl rfl rfl, fun other beyond => ?_, fun other is => ?_,
    fun one other first second => (quiet first).trans (quiet second).symm, fun other is => ?_,
    fun other is another differs owns => ?_, fun other is => ?_, fun one other first second same => ?_⟩
  · rw [there (by omega)]
    exact good.later other beyond
  · obtain rfl := quiet (by rw [seeks, is, Bool.true_or])
    exact lock (here ▸ is)
  · obtain rfl := quiet is
    rw [here] at is ⊢
    exact sought is
  · obtain rfl := quiet (by rw [seeks, taking, is, Bool.or_true])
    rw [there differs] at owns ⊢
    rw [here] at is ⊢
    exact free (.inl is) another differs owns
  · by_cases same : other = id
    · subst same
      rw [here] at is ⊢
      exact owned is
    · rw [there same] at is ⊢
      obtain ⟨a, token, inTable, timeout⟩ := good.owned other is
      refine ⟨a, token, kept other same is a inTable, fun idle t live => ?_⟩
      rcases untimed a t live with zero | ⟨old, live', unchanged⟩
      · exact zero
      · exact unchanged.trans (timeout idle old live')
  · by_cases isOne : one = id <;> by_cases isOther : other = id
    · rw [isOne, isOther]
    · rw [isOne, here] at first same
      rw [there isOther] at second same
      exact absurd same.symm (free (.inr first) other isOther second)
    · rw [there isOne] at first same
      rw [isOther, here] at second same
      exact absurd same (free (.inr second) one isOne first)
    · rw [there isOne] at first same
      rw [there isOther] at second same
      exact good.distinct one other first second same

theorem of_false_eq_true {p : Prop} (is : false = true) : p := absurd is Bool.false_ne_true

theorem ValetWorld.Good.look (good : w.Good n) (few : id < n)
    (sole : ∀ other, other ≠ id → (w.runs other).seeks = false)
    (lock : r.pc.inside = true → w'.globals = some id) (sought : r.seeks = true → w'.Sought r)
    (owns : r.owns = false) (found : r.pc ≠ .deleting := by simp)
    (hash : w'.hash = w.hash := by rfl) (heap : w'.heap = w.heap := by rfl)
    (next : w'.next = w.next := by rfl) (sane : w'.fault = w.fault := by rfl)
    (runs : w'.runs = w.runs := by rfl) : (w'.goto id r).Good n := by
  have never {p : Prop} (is : r.owns = true) : p := by
    rw [owns] at is
    cases is
  exact good.seek few sole (good.table.same hash heap next) (untimed_same heap)
    (fun _ _ _ a member => hash ▸ member) lock sought (·.elim (absurd · found) never) never sane runs

theorem sought_frame (hash : w'.hash = w.hash)
    (heap : ∀ a t, w.heap a = some t → w.find t.ext = none → w'.heap a = some t)
    (sought : w.Sought r) : w'.Sought r := by
  have finds (ext : Text) : w'.find ext = w.find ext := by rw [find, find, hash]
  unfold Sought at sought ⊢
  cases here : r.pc <;> simp only [here, hash, finds] at sought ⊢ <;> try exact sought
  case clearing =>
    obtain ⟨absent, a, t, token, live, ext⟩ := sought
    exact ⟨absent, a, t, token, heap a t live (ext ▸ absent), ext⟩
  case inserting =>
    obtain ⟨absent, a, t, token, live, ext, timeout⟩ := sought
    exact ⟨absent, a, t, token, heap a t live (ext ▸ absent), ext, timeout⟩

/-- **A step of a run that does not look for a slot**: it has at most its own token to write to. -/
theorem ValetWorld.Good.aside (good : w.Good n) (few : id < n) (table : w'.Table)
    (seeks : r.seeks = false)
    (heap : ∀ b, w'.heap b = w.heap b ∨ (r.owns = true → r.idle = false) ∧
      (w.runs id).owns = true ∧ ((w.runs id).ext, b) ∈ w.hash)
    (owns : r.owns = true → (w.runs id).owns = true ∧ r.ext = (w.runs id).ext ∧
      r.token = (w.runs id).token ∧ (r.idle = true → (w.runs id).idle = true))
    (hash : w'.hash = w.hash := by rfl) (globals : w'.globals = w.globals := by rfl)
    (sane : w'.fault = w.fault := by rfl) (runs : w'.runs = w.runs := by rfl) :
    (w'.goto id r).Good n := by
  have here : (w'.goto id r).runs id = r := update_self ..
  have there {other : Nat} (differs : other ≠ id) := goto_runs r runs differs
  have quiet {other : Nat} (is : ((w'.goto id r).runs other).seeks = true) : other ≠ id := by
    rintro rfl
    rw [here, seeks] at is
    cases is
  have owner {other : Nat} (is : ((w'.goto id r).runs other).owns = true) :
      (w.runs other).owns = true ∧ ((w'.goto id r).runs other).ext = (w.runs other).ext := by
    by_cases same : other = id
    · subst same
      rw [here] at is ⊢
      exact ⟨(owns is).1, (owns is).2.1⟩
    · rw [there same] at is ⊢
      exact ⟨is, rfl⟩
  refine ⟨sane.trans good.sane, table.same rfl rfl rfl, fun other beyond => ?_, fun other is => ?_,
    fun one other first second => ?_, fun other is => ?_, fun other is another differs isOwner => ?_,
    fun other is => ?_, fun one other first second same => ?_⟩
  · rw [there (by omega)]
    exact good.later other beyond
  · rw [there (quiet (by rw [ValetRun.seeks, is, Bool.true_or]))] at is
    exact globals.trans (good.lock other is)
  · rw [there (quiet first)] at first
    rw [there (quiet second)] at second
    exact good.one one other first second
  · have elsewhere := quiet is
    rw [there elsewhere] at is ⊢
    refine sought_frame hash (fun a t live absent => ?_) (good.sought other is)
    rcases heap a with same | ⟨-, -, mine⟩
    · exact same.trans live
    · obtain ⟨t', live', ext⟩ := good.table.entries _ a mine
      obtain rfl := some.inj (live.symm.trans live')
      exact absurd (ext ▸ mine) (find_eq_none_iff.mp absent a)
  · have elsewhere := quiet (by rw [ValetRun.seeks, taking, is, Bool.or_true])
    rw [there elsewhere] at is ⊢
    rw [(owner isOwner).2]
    exact good.free other is another differs (owner isOwner).1
  · obtain ⟨a, token, inTable, timeout⟩ := good.owned other (owner is).1
    refine ⟨a, ?_, ?_, fun idle t live => ?_⟩
    · by_cases same : other = id
      · subst same
        rw [here] at is ⊢
        rw [(owns is).2.2.1, token]
      · rw [there same, token]
    · rw [(owner is).2]
      exact hash.symm ▸ inTable
    · by_cases same : other = id
      · subst same
        rw [here] at is idle
        refine timeout ((owns is).2.2.2 idle) t ?_
        rcases heap a with unchanged | ⟨leaves, -⟩
        · exact unchanged.symm.trans live
        · rw [leaves is] at idle
          cases idle
      · rw [there same] at idle
        refine timeout idle t ?_
        rcases heap a with unchanged | ⟨-, mine, member⟩
        · exact unchanged.symm.trans live
        · obtain ⟨t₁, live₁, ext₁⟩ := good.table.entries _ a inTable
          obtain ⟨t₂, live₂, ext₂⟩ := good.table.entries _ a member
          obtain rfl := some.inj (live₁.symm.trans live₂)
          exact absurd (good.distinct other id (owner is).1 mine (ext₁.symm.trans ext₂)) same
  · rw [(owner first).2, (owner second).2] at same
    exact good.distinct one other (owner first).1 (owner second).1 same

end Good

section Steps

variable {n : Nat} {w : ValetWorld} {id : Nat} {e : ValetEnv} (good : w.Good n)

include good

theorem ValetWorld.Good.sole (seeks : (w.runs id).seeks = true) (other : Nat)
    (differs : other ≠ id) : (w.runs other).seeks = false := by
  by_contra is
  exact differs (good.one other id (Bool.not_eq_false _ ▸ is) seeks)

/-- **The lock**: while it is free, no run is in `next_id`. -/
theorem ValetWorld.Good.unlocked (free : w.globals = none) (quiet : w.Quiet n id) (other : Nat)
    (differs : other ≠ id) : (w.runs other).seeks = false := by
  have waits : (w.runs other).taking = false := by
    by_cases beyond : n ≤ other
    · rw [taking, good.later other beyond]
    · exact quiet other (by omega) differs
  rw [seeks, waits, Bool.or_false]
  by_contra inside
  have taken := good.lock other (Bool.not_eq_false _ ▸ inside)
  rw [free] at taken
  cases taken

theorem ValetWorld.Good.ext_ne {ext : Text} (absent : w.find ext = none) {other : Nat}
    (owns : (w.runs other).owns = true) : (w.runs other).ext ≠ ext := by
  rintro rfl
  obtain ⟨a, -, member, -⟩ := good.owned other owns
  exact find_eq_none_iff.mp absent a member

omit good in
theorem deref_live {token : Option Nat} {a : Nat} {t : ValetToken} (isToken : token = some a)
    (live : w.heap a = some t) (use : Nat → ValetToken → ValetWorld) :
    w.deref token use = use a t := by
  rw [isToken, deref, live]

variable (few : id < n)

include few

theorem good_start (orderly : w.Orderly n (.run id e)) (here : (w.runs id).pc = .start) :
    (w.runStep id e (w.runs id)).Good n := by
  simp only [runStep, here]
  split
  next ext _ =>
    exact good.aside few good.table rfl (fun _ => .inl rfl) nofun
  next isIn min max goal =>
    simp only [ValetWorld.Orderly, here, goal] at orderly
    split
    · exact good
    next free =>
      have sole := good.unlocked (by simpa using free) orderly.2
      have direction : (w.runs id).isIn = isIn := by rw [ValetRun.isIn, goal]
      cases isIn with
      | true => exact good.look few sole (fun _ => rfl) (fun _ => trivial) rfl
      | false =>
        exact good.look few sole (fun _ => rfl) (fun _ => direction) rfl

theorem good_look (orderly : w.Orderly n (.run id e)) (here : (w.runs id).pc = .look) :
    (w.runStep id e (w.runs id)).Good n := by
  simp only [ValetWorld.Orderly, here] at orderly
  simp only [runStep, here]
  refine good.look few (good.unlocked orderly.2.1 orderly.2.2) nofun (fun _ => ?_) rfl
  show Option.elim (w.find _) _ _
  cases found : w.find (w.runs id).ext with
  | none => rfl
  | some a => exact mem_of_find found

theorem good_inside (inside : (w.runs id).pc.inside = true) :
    (w.runStep id e (w.runs id)).Good n := by
  have lock := good.lock id inside
  have seeks : (w.runs id).seeks = true := by rw [seeks, inside, Bool.true_or]
  have sole := good.sole seeks
  have sought := good.sought id seeks
  unfold Sought at sought
  cases here : (w.runs id).pc with
  | longest =>
    rw [here] at sought
    simp only [runStep, here]
    rw [if_pos good.table.allLive]
    split
    · exact good.look few sole (fun _ => lock) (fun _ => sought) rfl
    · exact good.look few sole (fun _ => lock) (fun _ => trivial) rfl
  | slot i =>
    rw [here] at sought
    simp only [runStep, here]
    split
    next a found =>
      exact good.look few sole of_false_eq_true (fun _ => ⟨a, _, rfl, mem_of_find found⟩) sought
    next =>
      exact good.look few sole (fun _ => lock) (fun _ => trivial) rfl
  | scan i =>
    simp only [runStep, here]
    split
    · split
      next absent _ =>
        exact good.look few sole (fun _ => lock) (fun _ => absent) rfl
      next a found out =>
        exact good.look few sole (fun _ => lock)
          (fun _ => ⟨out, a, _, rfl, mem_of_find found⟩) rfl
      next =>
        exact good.look few sole (fun _ => lock) (fun _ => trivial) rfl
    · exact good.look few sole of_false_eq_true of_false_eq_true rfl
  | test i =>
    rw [here] at sought
    obtain ⟨out, a, ext, token, member⟩ := sought
    obtain ⟨t, live, -⟩ := good.table.entries ext a member
    simp only [runStep, here, deref_live token live]
    split
    · exact good.look few sole of_false_eq_true (fun _ => ⟨a, ext, token, member⟩) out
    · exact good.look few sole (fun _ => lock) (fun _ => trivial) rfl
  | claim i =>
    rw [here] at sought
    simp only [runStep, here]
    split
    · exact good.look few sole of_false_eq_true of_false_eq_true rfl
    · have hash := @insert_hash (w.alloc ⟨intText i, (w.runs id).uuid, 0, false, e.now⟩) _ sought w.next
      have inserted := (good.table.alloc ⟨intText i, (w.runs id).uuid, 0, false, e.now⟩).insert sought
        (update_self ..) rfl
      refine good.seek few sole (inserted.same rfl rfl rfl) (untimed_update rfl (.inl rfl))
        (fun _ _ _ a member => ?_) of_false_eq_true (fun _ => ⟨w.next, intText i, rfl, ?_⟩)
        (fun _ other _ owns => good.ext_ne sought owns) fun _ => ⟨w.next, rfl, ?_, fun _ t live => ?_⟩
      · exact hash ▸ mem_cons_of_mem _ member
      · exact hash ▸ mem_cons_self
      · exact hash ▸ mem_cons_self
      · cases (update_self ..).symm.trans live
        rfl
  | _ =>
    rw [here] at inside
    cases inside

/-- **A token that was found is looked at**: one that another run has in hand is not taken over. -/
theorem good_looked (orderly : w.Orderly n (.run id e)) (here : (w.runs id).pc = .looked) :
    (w.runStep id e (w.runs id)).Good n := by
  have seeks : (w.runs id).seeks = true := by rw [seeks, taking, here, Bool.or_true]
  have sole := good.sole seeks
  have sought := good.sought id seeks
  unfold Sought at sought
  rw [here] at sought
  cases token : (w.runs id).token with
  | none =>
    rw [token] at sought
    simp only [runStep, here, token]
    refine good.seek few sole (good.table.alloc _)
      (untimed_update rfl (.inl rfl)) (fun _ _ _ _ member => member) nofun
      (fun _ => ⟨sought, w.next, _, rfl, update_self .., rfl, rfl⟩) nofun nofun
  | some a =>
    rw [token] at sought
    obtain ⟨t, live, ext⟩ := good.table.entries _ a sought
    simp only [ValetWorld.Orderly, here] at orderly
    simp only [runStep, here, token, deref_live rfl live]
    split
    · exact good.look few sole nofun nofun rfl
    · split
      · exact good.seek few sole (good.table.write live (by rfl))
          (untimed_update rfl (.inl rfl)) (fun _ _ _ _ member => member) nofun nofun nofun nofun
      next bridged =>
        refine good.seek few sole (good.table.write live (by rfl))
          (untimed_update rfl ?_) (fun _ _ _ _ member => member) nofun
          (fun _ => ⟨a, rfl, sought⟩) (fun _ other differs owns same => bridged ?_) nofun
        · dsimp only
          split
          · exact .inl rfl
          · exact .inr ⟨t, live, rfl⟩
        · obtain ⟨b, token', member, -⟩ := good.owned other owns
          have same : (w.runs other).ext = (w.runs id).ext := same
          rw [same] at member
          obtain rfl := good.table.unique member sought
          have goes : (w.runs other).pc ≠ .done := by
            intro ended
            rw [ValetRun.owns, ended] at owns
            cases owns
          have within : other < n := by
            by_contra beyond
            rw [ValetRun.owns, good.later other (by omega)] at owns
            cases owns
          obtain ⟨fresh, uuid, located⟩ := orderly.2 t (by rw [token]; exact live) other within differs
            goes (token'.trans token.symm)
          simp [fresh, uuid, located]

theorem good_taking (orderly : w.Orderly n (.run id e)) (isTaking : (w.runs id).taking = true) :
    (w.runStep id e (w.runs id)).Good n := by
  have seeks : (w.runs id).seeks = true := by rw [seeks, isTaking, Bool.or_true]
  have sole := good.sole seeks
  have sought := good.sought id seeks
  unfold Sought at sought
  cases here : (w.runs id).pc with
  | got =>
    rw [here] at sought
    obtain ⟨a, ext, token, member⟩ := sought
    obtain ⟨t, live, rfl⟩ := good.table.entries ext a member
    have out : (w.runs id).isIn = false := by simpa [taking, here] using isTaking
    simp only [runStep, here, deref_live token live, out]
    refine good.look few sole nofun (fun _ => ?_) rfl
    show Option.elim (w.runs id).token _ _
    rw [token]
    exact member
  | looked => exact good_looked good few orderly here
  | deleting =>
    rw [here] at sought
    obtain ⟨a, token, member⟩ := sought
    obtain ⟨t, live, ext⟩ := good.table.entries _ a member
    simp only [runStep, here, deref_live token live]
    refine good.seek few sole (good.table.delete _) (untimed_same rfl)
      (fun other differs owns b isMember => mem_filter.mpr ⟨isMember, ?_⟩) nofun
      (fun _ => ⟨find_eq_none_iff.mpr fun b isMember => ?_, a, t, token, live, ext⟩) nofun nofun
    · have apart := good.free id here other differs owns
      rw [← ext] at apart
      simpa using apart
    · have other := (mem_filter.mp isMember).2
      simp [ext] at other
  | clearing =>
    rw [here] at sought
    obtain ⟨absent, a, t, token, live, ext⟩ := sought
    simp only [runStep, here, deref_live token live]
    exact good.seek few sole (good.table.write live (by exact ext.symm))
      (untimed_update rfl (.inl rfl)) (fun _ _ _ _ member => member) nofun
      (fun _ => ⟨absent, a, _, token, update_self .., rfl, rfl⟩) nofun nofun
  | inserting =>
    rw [here] at sought
    obtain ⟨absent, a, t, token, live, ext, timeout⟩ := sought
    have hash := insert_hash absent a
    rw [runStep, here]
    simp only [token]
    refine good.seek few sole (good.table.insert absent live ext)
      (untimed_same rfl) (fun _ _ _ b member => ?_) nofun nofun
      (fun _ other _ owns => good.ext_ne absent owns) fun _ => ⟨a, rfl, ?_, fun _ t' live' => ?_⟩
    · exact hash ▸ mem_cons_of_mem _ member
    · exact hash ▸ mem_cons_self
    · cases live.symm.trans live'
      exact timeout
  | _ => simp [taking, here] at isTaking

theorem good_owner (owns : (w.runs id).owns = true) : (w.runStep id e (w.runs id)).Good n := by
  obtain ⟨a, token, member, -⟩ := good.owned id owns
  obtain ⟨t, live, ext⟩ := good.table.entries _ a member
  have goes {r : ValetRun} (seeks : r.seeks = false) (isOwner : r.owns = true → r.ext = t.ext ∧
      r.token = some a ∧ (r.idle = true → (w.runs id).idle = true)) : (w.goto id r).Good n := by
    refine good.aside few good.table seeks (fun _ => .inl rfl)
      fun is => ?_
    obtain ⟨isExt, isToken, idle⟩ := isOwner is
    exact ⟨owns, isExt.trans ext, isToken.trans token.symm, idle⟩
  have leaves (timeout : Int) {r : ValetRun} (seeks : r.seeks = false)
      (isIdle : r.owns = true → r.idle = false)
      (isExt : r.ext = (w.runs id).ext) (isToken : r.token = (w.runs id).token) :
      ((w.write a { t with timeout }).goto id r).Good n := by
    refine good.aside few (good.table.write live (by rfl)) seeks
      (fun b => ?_) fun is => ⟨owns, isExt, isToken, fun idle => ?_⟩
    · by_cases same : b = a
      · exact .inr ⟨isIdle, owns, same ▸ member⟩
      · exact .inl (update_of_ne same ..)
    · rw [isIdle is] at idle
      cases idle
  cases here : (w.runs id).pc with
  | got =>
    have isIn : (w.runs id).isIn = true := by rwa [ValetRun.owns, here] at owns
    simp only [runStep, here, deref_live token live, isIn]
    exact goes rfl fun _ => ⟨rfl, token, fun _ => by rw [idle, here]⟩
  | inserted =>
    simp only [runStep, here, deref_live token live]
    split
    · exact leaves (e.now + 5) rfl (fun _ => rfl) rfl rfl
    · exact goes rfl fun _ => ⟨ext.symm, token, fun _ => by rw [idle, here]⟩
  | counting isLeaving =>
    simp only [runStep, here]
    rw [if_pos good.table.allLive]
    refine goes rfl fun _ => ⟨ext.symm, token, fun isIdle => ?_⟩
    rw [idle, here]
    cases isLeaving
    · rfl
    · cases isIdle
  | showing isLeaving =>
    simp only [runStep, here, deref_live token live]
    cases isLeaving with
    | true => exact goes rfl nofun
    | false => exact goes rfl fun _ => ⟨ext.symm, token, fun _ => by rw [idle, here]⟩
  | playing =>
    simp only [runStep, here, deref_live token live]
    exact leaves 1 rfl (fun _ => rfl) rfl rfl
  | ending =>
    simp only [runStep, here, deref_live token live]
    exact leaves 1 rfl nofun rfl rfl
  | _ =>
    rw [ValetRun.owns, here] at owns
    cases owns

omit good few in
theorem owns_of_parked {r : ValetRun} (parked : r.parked = true) : r.owns = true := by
  unfold ValetRun.parked at parked
  unfold ValetRun.owns
  cases here : r.pc <;> simp_all

omit good few in
theorem idle_of_resting {r : ValetRun} (rests : r.resting = true) (owns : r.owns = true) :
    r.idle = true := by
  unfold ValetRun.resting ValetRun.parked at rests
  unfold ValetRun.owns at owns
  unfold ValetRun.idle
  cases here : r.pc <;> simp_all
  all_goals
    rename_i leaves
    cases leaves <;> simp_all

omit few in
/-- **A sweep** frees no token of a parked channel. -/
theorem good_sweep {now : Int} (orderly : w.Orderly n (.check now)) : (w.checkTimeouts now).Good n := by
  have rests (id : Nat) : (w.runs id).resting = true := by
    by_cases beyond : n ≤ id
    · rw [resting, good.later id beyond]
    · exact orderly id (by omega)
  obtain ⟨swept, table⟩ := good.table.sweep now
  rw [swept] at table ⊢
  refine ⟨good.sane, table, good.later, good.lock, good.one, fun id is => ?_, good.free,
    fun id is => ?_, good.distinct⟩
  · have sought := good.sought id is
    have rest := rests id
    unfold Sought at sought ⊢
    dsimp only at is ⊢
    rw [resting] at rest
    cases here : (w.runs id).pc <;> simp only [here] at rest sought ⊢ <;> try exact sought
    case claim i =>
      refine find_eq_none_iff.mpr fun a member => ?_
      exact find_eq_none_iff.mp sought a (mem_of_mem_filter member)
    all_goals simp [ValetRun.parked, here] at rest
  · obtain ⟨a, token, member, timeout⟩ := good.owned id is
    have isIdle : (w.runs id).idle = true := idle_of_resting (rests id) is
    obtain ⟨t, live, -⟩ := good.table.entries _ a member
    have zero := timeout isIdle t live
    refine ⟨a, token, mem_filter.mpr ⟨member, ?_⟩, fun _ t' live' => ?_⟩
    · simp [live, ValetToken.expired, zero]
    · dsimp only at live'
      split at live'
      · cases live'
      · exact timeout isIdle t' live'

omit few in
theorem good_step {step : ValetStep} (orderly : w.Orderly n step) : (w.step step).Good n := by
  cases step with
  | check now => exact good_sweep good orderly
  | run id e =>
    have few : id < n := orderly.1
    show (w.runStep id e (w.runs id)).Good n
    cases inside : (w.runs id).pc.inside
    · cases taking : (w.runs id).taking
      · cases owns : (w.runs id).owns
        · cases here : (w.runs id).pc with
          | start => exact good_start good few orderly here
          | look => exact good_look good few orderly here
          | done =>
            simp only [runStep, here]
            exact good
          | _ => simp_all [ValetPc.inside, ValetRun.taking, ValetRun.owns]
        · exact good_owner good few owns
      · exact good_taking good few orderly taking
    · exact good_inside good few inside

end Steps

theorem good_empty (n : Nat) (uuid : Nat → Text) (goal : Nat → ValetGoal) :
    (empty uuid goal).Good n :=
  ⟨rfl, ⟨nodup_nil, nofun, fun _ _ => rfl⟩, fun _ _ => rfl, nofun, nofun, nofun, nofun, nofun, nofun⟩

def stepsOf (id n : Nat) : List ValetStep := .replicate n (.run id ⟨100, [], false, false⟩)

def lotSeven : ValetWorld := .empty (fun id => [Char.ofNat (97 + id)]) fun _ => .explicit ['7']

/-- Four channels: 0 is parked at 7, 2 is parked at 8 and leaves, 1 is parked by `auto in`; after a
sweep 3 takes 7. -/
def fourSteps : List ValetStep :=
  stepsOf 0 7 ++ stepsOf 2 10 ++ stepsOf 1 7 ++ [.check 100] ++
    .replicate 3 (.run 3 ⟨100, [], true, false⟩) ++ [.check 101]

def fourGoals : Nat → ValetGoal
  | 1 => .auto true 1 9
  | 2 => .explicit ['8']
  | _ => .explicit ['7']

end FreeSwitch
