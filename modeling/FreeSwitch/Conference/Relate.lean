/-
**Relationships between conference members.**

The calls of `conf_api_sub_relate` by several threads, with members that join and leave in between. A
call takes one step at a time, each with the locks of its member held or with none: it looks up its
members, it looks for a relationship, it adds one if there is none, and it sets the flags. Members
that a call has looked up are read-locked, and cannot leave before it ends.

`wanted` is what the calls that have ended ask for; no step of the code reads it.
-/

import FreeSwitch.Conference.Mix
import FreeSwitch.Lib.CString
import FreeSwitch.Lib.Run
import FreeSwitch.Lib.Unlink
import FreeSwitch.Lib.Unsigned

namespace FreeSwitch

open CString Conference List Unlink

/-! ### The code -/

inductive RelateKind
  | set (nospeak nohear : Bool)
  | clear
deriving DecidableEq

/-- `argv[4]`. -/
def relateKind (word : Text) : Option RelateKind :=
  let nospeak := (strstr "nospeak" word).isSome
  let nohear := (strstr "nohear" word).isSome
  if ciEq word "clear" then some .clear
  else if nospeak || nohear then some (.set nospeak nohear)
  else none

/-- `argv[2]` and `argv[3]`. -/
def memberId (arg : Text) : Nat := (atoi arg % 2 ^ 32).toNat

inductive RelatePhase
  /-- before `member_get_relationship` -/
  | searching (nospeak nohear : Bool)
  /-- before `member_add_relationship` -/
  | adding (nospeak nohear : Bool)
  | marking (nospeak nohear : Bool) (rel : Nat)
  /-- before `member_del_relationship` -/
  | clearing
deriving DecidableEq

structure RelateCall where
  thread : Nat
  id : Nat
  oid : Nat
  phase : RelatePhase
deriving DecidableEq

/-- The call has looked up `other_member`, too. -/
def RelateCall.holdsOther (call : RelateCall) : Bool := call.phase ≠ .clearing

def RelateCall.marks (call : RelateCall) (id oid : Nat) : Prop :=
  call.id = id ∧ call.oid = oid ∧ ∃ nospeak nohear rel, call.phase = .marking nospeak nohear rel

/-- The conference, `globals.id_pool`, the next address, the calls in progress, and what ended calls
ask for: whether a member may speak to another one and hear it. -/
structure RelateWorld where
  conf : Conference
  idPool : Nat
  nextRel : Nat
  calls : List RelateCall
  wanted : Nat → Nat → Option (Bool × Bool)

/-- `member_get_relationship`: one with the member, or the last one with everybody. -/
def memberGetRelationship (relationships : List Relationship) (oid : Nat) : Option Relationship :=
  (relationships.find? (·.id = oid)).or (relationships.filter (·.id = 0)).getLast?

/-- The loop of `member_del_relationship`, with the number found. A relationship that was taken out
is `last`, too. -/
def delRelationship (id : Nat) (nodes : List Relationship) (last : Option Nat) :
    List Relationship → List Relationship × Nat
  | [] => (nodes, 0)
  | rel :: rest =>
    if rel.id = id then
      let (nodes, found) :=
        delRelationship id (unlink Relationship.addr nodes last rest) (some rel.addr) rest
      (nodes, found + 1)
    else delRelationship id nodes (some rel.addr) rest

def memberDelRelationship (relationships : List Relationship) (id : Nat) :
    List Relationship × Nat :=
  if id = 0 then (relationships, 0) else delRelationship id relationships none relationships

def Relationship.mark (addr : Nat) (nospeak nohear : Bool) (rel : Relationship) : Relationship :=
  if rel.addr = addr then { rel with canSpeak := !nospeak, canHear := !nohear } else rel

def Conference.relate (conf : Conference) (change : Nat → List Relationship → List Relationship) :
    Conference :=
  { conf with members := conf.members.map fun m =>
      { m with relationships := change m.id m.relationships } }

def changeAt (id : Nat) (change : List Relationship → List Relationship) (a : Nat)
    (relationships : List Relationship) : List Relationship :=
  if a = id then change relationships else relationships

def Conference.ids (conf : Conference) : List Nat := conf.members.map (·.id)

def Conference.rels (conf : Conference) (id : Nat) : List Relationship :=
  ((conf.members.find? (·.id = id)).map (·.relationships)).getD []

variable (w : RelateWorld)

def RelateWorld.want (id oid : Nat) (wish : Option (Bool × Bool)) :
    Nat → Nat → Option (Bool × Bool) :=
  fun a b => if a = id ∧ b = oid then wish else w.wanted a b

/-- The call begins with `conference_member_get`. Whether a listed member is found (not when it was
kicked, or is leaving) is open. -/
def RelateWorld.begin (thread : Nat) (id oid : Nat) (kind : RelateKind) (found foundOther : Bool) :
    RelateWorld :=
  if w.calls.any (·.thread = thread) then w
  else
    match kind with
    | .clear =>
      if (id ≠ 0 ∧ id ∈ w.conf.ids) ∧ found then
        { w with calls := ⟨thread, id, oid, .clearing⟩ :: w.calls }
      else w
    | .set nospeak nohear =>
      if ((id ≠ 0 ∧ id ∈ w.conf.ids) ∧ found) ∧ (oid ≠ 0 ∧ oid ∈ w.conf.ids) ∧ foundOther then
        { w with calls := ⟨thread, id, oid, .searching nospeak nohear⟩ :: w.calls }
      else w

def RelateWorld.setPhase (thread : Nat) (phase : RelatePhase) : List RelateCall :=
  w.calls.map fun call => if call.thread = thread then { call with phase := phase } else call

def RelateWorld.endCall (thread : Nat) : List RelateCall :=
  w.calls.filter (·.thread ≠ thread)

def RelateWorld.advance (call : RelateCall) : RelateWorld :=
  match call.phase with
  | .searching nospeak nohear =>
    let phase := match memberGetRelationship (w.conf.rels call.id) call.oid with
      | some rel => .marking nospeak nohear rel.addr
      | none => .adding nospeak nohear
    { w with calls := w.setPhase call.thread phase }
  | .adding nospeak nohear =>
    if call.oid = 0 then { w with calls := w.endCall call.thread }
    else
      { w with
        conf := { w.conf.relate (changeAt call.id (⟨w.nextRel, call.oid, false, false⟩ :: ·)) with
          relationshipTotal := Unsigned.add 32 w.conf.relationshipTotal 1 }
        nextRel := w.nextRel + 1
        calls := w.setPhase call.thread (.marking nospeak nohear w.nextRel) }
  | .marking nospeak nohear rel =>
    { w with
      conf := w.conf.relate fun _ => List.map (Relationship.mark rel nospeak nohear)
      calls := w.endCall call.thread
      wanted := w.want call.id call.oid (some (!nospeak, !nohear)) }
  | .clearing =>
    { w with
      conf := { w.conf.relate (changeAt call.id fun rels => (memberDelRelationship rels call.oid).1) with
        relationshipTotal := Unsigned.sub 32 w.conf.relationshipTotal
          (memberDelRelationship (w.conf.rels call.id) call.oid).2 }
      calls := w.endCall call.thread
      wanted := w.want call.id call.oid none }

/-- `conference_add_member`. -/
def RelateWorld.join (member : ConfMember) : RelateWorld :=
  let id := Unsigned.add 32 w.idPool 1
  { w with
    conf := ⟨{ member with id := id, relationships := [] } :: w.conf.members,
      w.conf.relationshipTotal⟩
    idPool := id }

/-- `conference_del_member`, which waits for the calls that hold the member and leaves
`relationship_total`. -/
def RelateWorld.leave (id : Nat) : RelateWorld :=
  if w.calls.any fun call => call.id = id || (call.holdsOther && call.oid = id) then w
  else
    { w with
      conf := ⟨w.conf.members.filter (·.id ≠ id), w.conf.relationshipTotal⟩
      wanted := fun a b => if a = id then none else w.wanted a b }

def RelateWorld.change (id : Nat) (member : ConfMember) : RelateWorld :=
  { w with
    conf := ⟨w.conf.members.map fun m =>
      if m.id = id then { member with id := m.id, relationships := m.relationships } else m,
      w.conf.relationshipTotal⟩ }

/-- A member joins, leaves or changes, a call of `conf_api_sub_relate` begins, or goes on. -/
inductive RelateOp
  | join (member : ConfMember)
  | leave (id : Nat)
  | change (id : Nat) (member : ConfMember)
  | relate (thread : Nat) (id oid word : Text) (found foundOther : Bool)
  | proceed (thread : Nat)

def RelateWorld.step (w : RelateWorld) : RelateOp → RelateWorld
  | .join member => w.join member
  | .leave id => w.leave id
  | .change id member => w.change id member
  | .relate thread id oid word found foundOther =>
    match relateKind word with
    | none => w
    | some kind => w.begin thread (memberId id) (memberId oid) kind found foundOther
  | .proceed thread =>
    match w.calls.find? (·.thread = thread) with
    | none => w
    | some call => w.advance call

def RelateWorld.start : RelateWorld := ⟨⟨[], 0⟩, 0, 0, [], fun _ _ => none⟩

/-! ### The lists of relationships -/

section Lists

variable {id : Nat}

theorem delRelationship_absent (nodes : List Relationship) (last : Option Nat)
    {rest : List Relationship} (absent : ∀ rel ∈ rest, rel.id ≠ id) :
    delRelationship id nodes last rest = (nodes, 0) := by
  induction rest generalizing last with
  | nil => rfl
  | cons rel rest ih =>
    rw [delRelationship, if_neg (absent rel mem_cons_self)]
    exact ih _ fun other member => absent other (mem_cons_of_mem _ member)

theorem delRelationship_spec {front rest : List Relationship}
    (distinct : ((front ++ rest).map Relationship.addr).Nodup)
    (unique : (rest.map Relationship.id).Nodup) :
    delRelationship id (front ++ rest) (front.getLast?.map Relationship.addr) rest =
      (front ++ rest.filter (·.id ≠ id), rest.countP (·.id = id)) := by
  induction rest generalizing front with
  | nil => rfl
  | cons rel rest ih =>
    rw [map_cons, nodup_cons] at unique
    rw [delRelationship, filter_cons, countP_cons]
    by_cases here : rel.id = id
    · have absent : ∀ other ∈ rest, other.id ≠ id := fun other member same =>
        unique.1 (mem_map.mpr ⟨other, member, same.trans here.symm⟩)
      have kept : rest.filter (·.id ≠ id) = rest := filter_eq_self.mpr (by simpa using absent)
      have none : rest.countP (·.id = id) = 0 := countP_eq_zero.mpr (by simpa using absent)
      rw [if_pos here, unlink_eq distinct, delRelationship_absent _ _ absent, kept, none]
      simp [here]
    · have shifted : (((front ++ [rel]) ++ rest).map Relationship.addr).Nodup := by
        simpa using distinct
      have next := ih shifted unique.2
      rw [getLast?_concat, append_assoc, singleton_append] at next
      rw [if_neg here]
      refine next.trans ?_
      simp [here]

theorem memberDelRelationship_spec {relationships : List Relationship}
    (distinct : (relationships.map Relationship.addr).Nodup)
    (unique : (relationships.map Relationship.id).Nodup) (named : ∀ rel ∈ relationships, rel.id ≠ 0) :
    memberDelRelationship relationships id =
      (relationships.filter (·.id ≠ id), relationships.countP (·.id = id)) := by
  unfold memberDelRelationship
  split
  next zero =>
    subst zero
    rw [filter_eq_self.mpr (by simpa using named), countP_eq_zero.mpr (by simpa using named)]
  next =>
    have whole : (([] ++ relationships).map Relationship.addr).Nodup := distinct
    exact delRelationship_spec whole unique

@[simp] theorem mark_addr (addr : Nat) (nospeak nohear : Bool) (rel : Relationship) :
    (rel.mark addr nospeak nohear).addr = rel.addr := by
  unfold Relationship.mark
  split <;> rfl

@[simp] theorem mark_id (addr : Nat) (nospeak nohear : Bool) (rel : Relationship) :
    (rel.mark addr nospeak nohear).id = rel.id := by
  unfold Relationship.mark
  split <;> rfl

/-- By id: no list has two relationships with one member or one with everybody, and an address is
that of one relationship. -/
structure ListsSound (nextRel : Nat) (rels : Nat → List Relationship) : Prop where
  unique : ∀ a, ((rels a).map Relationship.id).Nodup
  named : ∀ a, ∀ rel ∈ rels a, rel.id ≠ 0
  placed : ∀ a b, ∀ rel ∈ rels a, ∀ other ∈ rels b, rel.addr = other.addr →
    a = b ∧ rel.id = other.id
  allocated : ∀ a, ∀ rel ∈ rels a, rel.addr < nextRel

variable {nextRel : Nat} {rels rels' : Nat → List Relationship}

theorem ListsSound.distinct (lists : ListsSound nextRel rels) (a : Nat) :
    ((rels a).map Relationship.addr).Nodup := by
  refine List.Nodup.map_on (fun rel member other member' same => ?_) (lists.unique a).of_map
  exact inj_on_of_nodup_map (lists.unique a) member member'
    (lists.placed a a rel member other member' same).2

theorem ListsSound.find?_eq (lists : ListsSound nextRel rels) {a : Nat} {rel : Relationship}
    (inList : rel ∈ rels a) (same : rel.id = id) : (rels a).find? (·.id = id) = some rel := by
  obtain ⟨other, found⟩ : ∃ other, (rels a).find? (·.id = id) = some other :=
    Option.isSome_iff_exists.mp (find?_isSome.mpr ⟨rel, inList, by simpa using same⟩)
  have same' : other.id = id := by simpa using find?_some found
  obtain rfl := inj_on_of_nodup_map (lists.unique a) (mem_of_find?_eq_some found) inList
    (same'.trans same.symm)
  exact found

theorem ListsSound.of_sublist (lists : ListsSound nextRel rels)
    (fewer : ∀ a, (rels' a).Sublist (rels a)) : ListsSound nextRel rels' where
  unique a := (lists.unique a).sublist ((fewer a).map _)
  named a rel member := lists.named a rel ((fewer a).subset member)
  placed a b rel member other member' :=
    lists.placed a b rel ((fewer a).subset member) other ((fewer b).subset member')
  allocated a rel member := lists.allocated a rel ((fewer a).subset member)

theorem ListsSound.mark (lists : ListsSound nextRel rels) (addr : Nat) (nospeak nohear : Bool) :
    ListsSound nextRel fun a => (rels a).map (Relationship.mark addr nospeak nohear) where
  unique a := by
    rw [map_map]
    convert lists.unique a using 2
    funext rel
    exact mark_id addr nospeak nohear rel
  named a rel member := by
    obtain ⟨old, inList, rfl⟩ := mem_map.mp member
    rw [mark_id]
    exact lists.named a old inList
  placed a b rel member other member' same := by
    obtain ⟨old, inList, rfl⟩ := mem_map.mp member
    obtain ⟨old', inList', rfl⟩ := mem_map.mp member'
    rw [mark_addr, mark_addr] at same
    rw [mark_id, mark_id]
    exact lists.placed a b old inList old' inList' same
  allocated a rel member := by
    obtain ⟨old, inList, rfl⟩ := mem_map.mp member
    rw [mark_addr]
    exact lists.allocated a old inList

theorem mem_changeAt_cons {rel new : Relationship} {a : Nat} :
    rel ∈ changeAt id (new :: ·) a (rels a) ↔ (a = id ∧ rel = new) ∨ rel ∈ rels a := by
  unfold changeAt
  split
  next here => simp [here]
  next other => simp [other]

theorem ListsSound.add {oid : Nat} (lists : ListsSound nextRel rels) (some : oid ≠ 0)
    (absent : ∀ rel ∈ rels id, rel.id ≠ oid) (canSpeak canHear : Bool) :
    ListsSound (nextRel + 1) fun a =>
      changeAt id (⟨nextRel, oid, canSpeak, canHear⟩ :: ·) a (rels a) where
  unique a := by
    unfold changeAt
    split
    next here =>
      subst here
      rw [map_cons, nodup_cons]
      refine ⟨fun member => ?_, lists.unique a⟩
      obtain ⟨rel, inList, same⟩ := mem_map.mp member
      exact absent rel inList same
    next => exact lists.unique a
  named a rel member := by
    rcases mem_changeAt_cons.mp member with ⟨-, rfl⟩ | old
    · exact some
    · exact lists.named a rel old
  placed a b rel member other member' same := by
    rcases mem_changeAt_cons.mp member with ⟨rfl, rfl⟩ | old <;>
      rcases mem_changeAt_cons.mp member' with ⟨rfl, rfl⟩ | old'
    · exact ⟨rfl, rfl⟩
    · exact absurd same (lists.allocated b other old').ne'
    · exact absurd same (lists.allocated a rel old).ne
    · exact lists.placed a b rel old other old' same
  allocated a rel member := by
    rcases mem_changeAt_cons.mp member with ⟨-, rfl⟩ | old
    · exact Nat.lt_succ_self _
    · exact Nat.lt_succ_of_lt (lists.allocated a rel old)

end Lists

/-! ### The calls -/

section Calls

variable {ids : List Nat} {nextRel : Nat} {rels rels' : Nat → List Relationship}
  {calls : List RelateCall}

/-- Calls in progress hold listed members, and the relationship that one is about to mark is its
own, or in no list any more. -/
structure CallsSound (ids : List Nat) (nextRel : Nat) (rels : Nat → List Relationship)
    (calls : List RelateCall) : Prop where
  threads : (calls.map RelateCall.thread).Nodup
  held : ∀ call ∈ calls, call.id ∈ ids ∧ (call.holdsOther = true → call.oid ∈ ids)
  marked : ∀ call ∈ calls, ∀ nospeak nohear addr, call.phase = .marking nospeak nohear addr →
    addr < nextRel ∧ ∀ a, ∀ rel ∈ rels a, rel.addr = addr → a = call.id ∧ rel.id = call.oid

def Unmarked (calls : List RelateCall) (id oid : Nat) : Prop := ∀ call ∈ calls, ¬ call.marks id oid

def WishesMet (rels : Nat → List Relationship) (calls : List RelateCall)
    (wanted : Nat → Nat → Option (Bool × Bool)) : Prop :=
  ∀ a b, Unmarked calls a b →
    wanted a b = ((rels a).find? (·.id = b)).map fun rel => (rel.canSpeak, rel.canHear)

theorem CallsSound.mono {ids' : List Nat} (sound : CallsSound ids nextRel rels calls)
    (more : ∀ a ∈ ids, a ∈ ids')
    (fewer : ∀ a, ∀ rel ∈ rels' a, ∃ old ∈ rels a, rel.addr = old.addr ∧ rel.id = old.id) :
    CallsSound ids' nextRel rels' calls where
  threads := sound.threads
  held call member := by
    obtain ⟨own, other⟩ := sound.held call member
    exact ⟨more _ own, fun holds => more _ (other holds)⟩
  marked call member nospeak nohear addr phase := by
    obtain ⟨allocated, own⟩ := sound.marked call member nospeak nohear addr phase
    refine ⟨allocated, fun a rel inList same => ?_⟩
    obtain ⟨old, inOld, sameAddr, sameId⟩ := fewer a rel inList
    rw [sameId]
    exact own a old inOld (sameAddr.symm.trans same)

theorem CallsSound.sublist {calls' : List RelateCall} (sound : CallsSound ids nextRel rels calls)
    (fewer : calls'.Sublist calls) : CallsSound ids nextRel rels calls' where
  threads := sound.threads.sublist (fewer.map _)
  held call member := sound.held call (fewer.subset member)
  marked call member := sound.marked call (fewer.subset member)

theorem CallsSound.same {call other : RelateCall} (sound : CallsSound ids nextRel rels calls)
    (member : call ∈ calls) (member' : other ∈ calls) (same : call.thread = other.thread) :
    call = other :=
  inj_on_of_nodup_map sound.threads member member' same

variable {w : RelateWorld} {call : RelateCall}

theorem RelateCall.not_marks (idle : ∀ nospeak nohear addr, call.phase ≠ .marking nospeak nohear addr)
    (a b : Nat) : ¬ call.marks a b := by
  rintro ⟨-, -, nospeak, nohear, addr, marking⟩
  exact idle nospeak nohear addr marking

variable (sound : CallsSound ids nextRel rels w.calls) (member : call ∈ w.calls)

include sound member

theorem CallsSound.mem_setPhase (phase : RelatePhase) {other : RelateCall} :
    other ∈ w.setPhase call.thread phase ↔
      (other ∈ w.calls ∧ other.thread ≠ call.thread) ∨ other = { call with phase := phase } := by
  unfold RelateWorld.setPhase
  rw [mem_map]
  constructor
  · rintro ⟨old, inList, rfl⟩
    by_cases same : old.thread = call.thread
    · rw [if_pos same]
      obtain rfl := sound.same inList member same
      exact .inr rfl
    · rw [if_neg same]
      exact .inl ⟨inList, same⟩
  · rintro (⟨inList, differ⟩ | rfl)
    · exact ⟨other, inList, if_neg differ⟩
    · exact ⟨call, member, if_pos rfl⟩

theorem CallsSound.setPhase {phase : RelatePhase} (holds : call.holdsOther = true)
    (marked : ∀ nospeak nohear addr, phase = .marking nospeak nohear addr →
      addr < nextRel ∧ ∀ a, ∀ rel ∈ rels a, rel.addr = addr → a = call.id ∧ rel.id = call.oid) :
    CallsSound ids nextRel rels (w.setPhase call.thread phase) where
  threads := by
    convert sound.threads using 1
    unfold RelateWorld.setPhase
    rw [map_map]
    refine map_congr_left fun other _ => ?_
    rw [Function.comp_apply]
    split <;> rfl
  held other inList := by
    rcases (sound.mem_setPhase member phase).mp inList with ⟨old, -⟩ | rfl
    · exact sound.held other old
    · obtain ⟨own, second⟩ := sound.held call member
      exact ⟨own, fun _ => second holds⟩
  marked other inList := by
    rcases (sound.mem_setPhase member phase).mp inList with ⟨old, -⟩ | rfl
    · exact sound.marked other old
    · exact marked

theorem CallsSound.unmarked_of_others {a b : Nat}
    (idle : ¬ call.marks a b) (unmarked : Unmarked calls a b)
    (others : ∀ other ∈ w.calls, other.thread ≠ call.thread → other ∈ calls) :
    Unmarked w.calls a b := by
  intro other inList marks
  by_cases same : other.thread = call.thread
  · obtain rfl := sound.same inList member same
    exact idle marks
  · exact unmarked other (others other inList same) marks

theorem CallsSound.unmarked_of_setPhase {phase : RelatePhase} {a b : Nat}
    (idle : ¬ call.marks a b)
    (unmarked : Unmarked (w.setPhase call.thread phase) a b) : Unmarked w.calls a b :=
  sound.unmarked_of_others member idle unmarked fun _ inList differs =>
    (sound.mem_setPhase member phase).mpr (.inl ⟨inList, differs⟩)

theorem CallsSound.unmarked_of_endCall {a b : Nat} (idle : ¬ call.marks a b)
    (unmarked : Unmarked (w.endCall call.thread) a b) : Unmarked w.calls a b :=
  sound.unmarked_of_others member idle unmarked fun _ inList differs =>
    mem_filter.mpr ⟨inList, by simpa using differs⟩

end Calls

/-! ### The members -/

section Members

variable {conf : Conference} {a id : Nat}

theorem rels_absent (absent : a ∉ conf.ids) : conf.rels a = [] := by
  have nobody : conf.members.find? (·.id = a) = none :=
    find?_eq_none.mpr fun m member same =>
      absent (mem_map.mpr ⟨m, member, of_decide_eq_true same⟩)
  rw [rels, nobody]
  rfl

theorem rels_of_mem (distinct : conf.ids.Nodup) {m : ConfMember} (member : m ∈ conf.members) :
    conf.rels m.id = m.relationships := by
  cases found : conf.members.find? (·.id = m.id) with
  | none =>
    have differs := find?_eq_none.mp found m member
    simp at differs
  | some other =>
    have same : other.id = m.id := by simpa using find?_some found
    obtain rfl := inj_on_of_nodup_map distinct (mem_of_find?_eq_some found) member same
    rw [rels, found]
    rfl

theorem ids_map (conf : Conference) {change : ConfMember → ConfMember} (same : ∀ m, (change m).id = m.id) :
    (⟨conf.members.map change, conf.relationshipTotal⟩ : Conference).ids = conf.ids := by
  simp only [ids, map_map]
  exact map_congr_left fun m _ => same m

theorem rels_map {change : ConfMember → ConfMember} (same : ∀ m, (change m).id = m.id) :
    (⟨conf.members.map change, conf.relationshipTotal⟩ : Conference).rels a =
      ((conf.members.find? (·.id = a)).map fun m => (change m).relationships).getD [] := by
  have through : ((fun m : ConfMember => decide (m.id = a)) ∘ change) = fun m => decide (m.id = a) := by
    funext m
    rw [Function.comp_apply, same]
  simp only [rels, find?_map, Option.map_map, through]
  rfl

theorem ids_relate (change : Nat → List Relationship → List Relationship) :
    (conf.relate change).ids = conf.ids := by
  simp only [ids, relate, map_map]
  rfl

theorem rels_relate {change : Nat → List Relationship → List Relationship}
    (empty : ∀ a ∉ conf.ids, change a [] = []) (a : Nat) :
    (conf.relate change).rels a = change a (conf.rels a) := by
  have through : (conf.relate change).rels a = ((conf.members.find? (·.id = a)).map fun m =>
      change m.id m.relationships).getD [] := by
    unfold relate
    exact rels_map fun _ => rfl
  rw [through, rels]
  cases found : conf.members.find? (·.id = a) with
  | none =>
    refine (empty a fun member => ?_).symm
    obtain ⟨m, inList, same⟩ := mem_map.mp member
    exact find?_eq_none.mp found m inList (by simpa using same)
  | some m =>
    have same : m.id = a := by simpa using find?_some found
    simp [same]

theorem rels_changeAt (own : id ∈ conf.ids) (change : List Relationship → List Relationship) :
    (conf.relate (changeAt id change)).rels = fun a => changeAt id change a (conf.rels a) := by
  funext a
  refine rels_relate (fun b absent => ?_) a
  have other : b ≠ id := fun same => absent (same ▸ own)
  exact if_neg other

def Conference.related (conf : Conference) : Nat :=
  ∑ a ∈ conf.ids.toFinset, (conf.rels a).length

theorem related_of_longer {conf' : Conference} {n : Nat} (ids : conf'.ids = conf.ids)
    (member : id ∈ conf.ids)
    (lengths : ∀ a, (conf'.rels a).length = (conf.rels a).length + if a = id then n else 0) :
    conf'.related = conf.related + n := by
  unfold related
  rw [ids, Finset.sum_congr rfl fun a _ => lengths a, Finset.sum_add_distrib, Finset.sum_ite_eq',
    if_pos (mem_toFinset.mpr member)]

end Members

end FreeSwitch
