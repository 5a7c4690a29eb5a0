/-
**The relationships that the mixer finds.**

What every step of the calls, joins and leaves keeps, as long as no two calls between the same members
are in each other's way.
-/

import FreeSwitch.Conference.Relate

namespace FreeSwitch

open CString Conference List RelateWorld Relationship

/-! ### What every step keeps -/

/-- **The invariant.** -/
structure RelateWorld.Sound (w : RelateWorld) : Prop where
  distinct : w.conf.ids.Nodup
  fresh : ∀ a ∈ w.conf.ids, 0 < a ∧ a ≤ w.idPool
  lists : ListsSound w.nextRel w.conf.rels
  total : w.conf.related ≤ w.conf.relationshipTotal
  bounded : w.conf.relationshipTotal < 2 ^ 32
  calls : CallsSound w.conf.ids w.nextRel w.conf.rels w.calls
  met : WishesMet w.conf.rels w.calls w.wanted

/-- Since this call has looked, no other one has added a relationship between the same members or
removed the one whose flags it sets; and `relationship_total` does not wrap. -/
def RelateWorld.Undisturbed (w : RelateWorld) (call : RelateCall) : Prop :=
  match call.phase with
  | .searching _ _ => True
  | .adding _ _ => (∀ rel ∈ w.conf.rels call.id, rel.id ≠ call.oid) ∧
      w.conf.relationshipTotal + 1 < 2 ^ 32
  | .marking _ _ addr => ∃ rel ∈ w.conf.rels call.id, rel.addr = addr
  | .clearing => True

instance RelateWorld.decidableUndisturbed (w : RelateWorld) (call : RelateCall) :
    Decidable (w.Undisturbed call) := by
  unfold Undisturbed
  split <;> infer_instance

/-- **The condition on a step**: a call that goes on is not disturbed, and member ids do not wrap.
-/
def RelateWorld.Alone (w : RelateWorld) : RelateOp → Prop
  | .join _ => w.idPool + 1 < 2 ^ 32
  | .proceed thread => ∀ call ∈ w.calls, call.thread = thread → w.Undisturbed call
  | _ => True

instance RelateWorld.decidableAlone (w : RelateWorld) (op : RelateOp) : Decidable (w.Alone op) := by
  unfold Alone
  split <;> infer_instance

theorem sound_start : start.Sound where
  distinct := nodup_nil
  fresh _ member := by cases member
  lists :=
    { unique := fun _ => nodup_nil
      named := fun _ _ member => by cases member
      placed := fun _ _ _ member => by cases member
      allocated := fun _ _ member => by cases member }
  total := le_refl 0
  bounded := by decide
  calls :=
    { threads := nodup_nil
      held := fun _ member => by cases member
      marked := fun _ member => by cases member }
  met _ _ _ := rfl

section Steps

variable {w : RelateWorld} {call : RelateCall}

theorem sound_join (sound : w.Sound) (member : ConfMember) (room : w.idPool + 1 < 2 ^ 32) :
    (w.join member).Sound := by
  have id : Unsigned.add 32 w.idPool 1 = w.idPool + 1 := Unsigned.add_of_lt room
  have new : w.idPool + 1 ∉ w.conf.ids := fun inList => by
    have := (sound.fresh _ inList).2
    omega
  obtain ⟨conf', isConf⟩ : ∃ conf' : Conference, conf' =
    ⟨{ member with id := w.idPool + 1, relationships := [] } :: w.conf.members,
      w.conf.relationshipTotal⟩ := ⟨_, rfl⟩
  have ids : conf'.ids = (w.idPool + 1) :: w.conf.ids := by rw [isConf]; rfl
  have rels : conf'.rels = w.conf.rels := by
    funext a
    by_cases here : w.idPool + 1 = a
    · subst here
      rw [rels_absent new, isConf]
      simp [rels]
    · rw [isConf]
      simp [rels, here]
  have related : conf'.related = w.conf.related := by
    unfold related
    rw [ids, rels, toFinset_cons, Finset.sum_insert (by simpa using new), rels_absent new]
    exact Nat.zero_add _
  have stepped : w.join member = { w with conf := conf', idPool := w.idPool + 1 } := by
    rw [isConf]
    simp only [join, id]
  rw [stepped]
  refine ⟨?_, ?_, ?_, ?_, ?_, ?_, ?_⟩ <;> dsimp only
  · rw [ids]
    exact nodup_cons.mpr ⟨new, sound.distinct⟩
  · intro a inList
    rw [ids, mem_cons] at inList
    rcases inList with rfl | old
    · omega
    · have := sound.fresh a old
      omega
  · rw [rels]
    exact sound.lists
  · rw [related, isConf]
    exact sound.total
  · rw [isConf]
    exact sound.bounded
  · rw [rels, ids]
    exact sound.calls.mono (fun a old => mem_cons_of_mem _ old)
      fun a rel inList => ⟨rel, inList, rfl, rfl⟩
  · rw [rels]
    exact sound.met

theorem sound_leave (sound : w.Sound) (id : Nat) : (w.leave id).Sound := by
  unfold leave
  split
  · exact sound
  next free =>
    have free : ∀ call ∈ w.calls, call.id ≠ id ∧ (call.holdsOther = true → call.oid ≠ id) := by
      simpa using free
    obtain ⟨conf', isConf⟩ : ∃ conf' : Conference, conf' =
      ⟨w.conf.members.filter (·.id ≠ id), w.conf.relationshipTotal⟩ := ⟨_, rfl⟩
    have ids : conf'.ids = w.conf.ids.filter (· ≠ id) := by
      simp only [isConf, ids, filter_map]
      rfl
    have rels : conf'.rels = fun a => if a = id then [] else w.conf.rels a := by
      funext a
      by_cases here : a = id
      · rw [if_pos here, rels_absent]
        rw [ids]
        simp [here]
      · rw [if_neg here, isConf]
        unfold rels
        rw [find?_filter]
        congr 3
        funext m
        by_cases same : m.id = a <;> simp [same, here]
    have fewer : ∀ a, (conf'.rels a).Sublist (w.conf.rels a) := fun a => by
      rw [rels]
      dsimp only
      split
      · exact nil_sublist _
      · exact Sublist.refl _
    rw [← isConf]
    refine ⟨?_, ?_, ?_, ?_, ?_, ?_, ?_⟩ <;> dsimp only
    · rw [ids]
      exact sound.distinct.filter _
    · intro a inList
      rw [ids] at inList
      exact sound.fresh a (mem_of_mem_filter inList)
    · exact sound.lists.of_sublist fewer
    · have less : conf'.related ≤ w.conf.related := by
        unfold related
        refine (Finset.sum_le_sum fun a _ => (fewer a).length_le).trans ?_
        refine Finset.sum_le_sum_of_subset fun a inList => ?_
        rw [ids, mem_toFinset] at inList
        exact mem_toFinset.mpr (mem_of_mem_filter inList)
      rw [isConf] at less ⊢
      exact less.trans sound.total
    · rw [isConf]
      exact sound.bounded
    · have inOld := sound.calls.mono (fun a old => old)
        fun a rel inList => ⟨rel, (fewer a).subset inList, rfl, rfl⟩
      refine { inOld with held := fun call member => ?_ }
      obtain ⟨own, other⟩ := inOld.held call member
      obtain ⟨differ, differ'⟩ := free call member
      rw [ids]
      refine ⟨mem_filter.mpr ⟨own, by simpa using differ⟩, fun holds => ?_⟩
      exact mem_filter.mpr ⟨other holds, by simpa using differ' holds⟩
    · intro a b unmarked
      rw [rels]
      dsimp only
      split
      · rfl
      · exact sound.met a b unmarked

theorem sound_change (sound : w.Sound) (id : Nat) (member : ConfMember) :
    (w.change id member).Sound := by
  let change (m : ConfMember) : ConfMember :=
    if m.id = id then { member with id := m.id, relationships := m.relationships } else m
  have same (m : ConfMember) : (change m).id = m.id := by
    unfold change
    split <;> rfl
  have kept (m : ConfMember) : (change m).relationships = m.relationships := by
    unfold change
    split <;> rfl
  have rels : (⟨w.conf.members.map change, w.conf.relationshipTotal⟩ : Conference).rels =
      w.conf.rels := by
    funext a
    rw [rels_map same]
    simp only [kept]
    rfl
  have ids := ids_map w.conf same
  show Sound { w with conf := ⟨w.conf.members.map change, _⟩ }
  constructor <;> simp only [related, ids, rels]
  exacts [sound.distinct, sound.fresh, sound.lists, sound.total, sound.bounded, sound.calls, sound.met]

theorem sound_enter (sound : w.Sound) (new : RelateCall)
    (thread : ∀ call ∈ w.calls, call.thread ≠ new.thread)
    (idle : ∀ nospeak nohear addr, new.phase ≠ .marking nospeak nohear addr)
    (own : new.id ∈ w.conf.ids) (other : new.holdsOther = true → new.oid ∈ w.conf.ids) :
    ({ w with calls := new :: w.calls } : RelateWorld).Sound where
  distinct := sound.distinct
  fresh := sound.fresh
  lists := sound.lists
  total := sound.total
  bounded := sound.bounded
  calls :=
    { threads := by
        rw [map_cons, nodup_cons]
        refine ⟨fun member => ?_, sound.calls.threads⟩
        obtain ⟨call, inList, same⟩ := mem_map.mp member
        exact thread call inList same
      held := forall_mem_cons.mpr ⟨⟨own, other⟩, sound.calls.held⟩
      marked := forall_mem_cons.mpr
        ⟨fun nospeak nohear addr phase => absurd phase (idle nospeak nohear addr),
          sound.calls.marked⟩ }
  met a b unmarked := sound.met a b fun call member =>
    unmarked call (mem_cons_of_mem _ member)

theorem sound_relate (sound : w.Sound) (thread : Nat) (id oid word : CString.Text)
    (found foundOther : Bool) : (w.step (.relate thread id oid word found foundOther)).Sound := by
  unfold step
  dsimp only
  split
  · exact sound
  next kind _ =>
    unfold begin
    split
    · exact sound
    next free =>
      have free : ∀ call ∈ w.calls, call.thread ≠ thread := by simpa using free
      cases kind with
      | clear =>
        dsimp only
        split
        next looked =>
          exact sound_enter sound _ free (fun _ _ _ => nofun) looked.1.2 fun holds => by cases holds
        next => exact sound
      | set nospeak nohear =>
        dsimp only
        split
        next looked =>
          exact sound_enter sound _ free (fun _ _ _ => nofun) looked.1.1.2 fun _ => looked.2.1.2
        next => exact sound

theorem memberGetRelationship_some {relationships : List Relationship} {oid : Nat} {rel : Relationship}
    (named : ∀ rel ∈ relationships, rel.id ≠ 0)
    (found : memberGetRelationship relationships oid = some rel) :
    rel ∈ relationships ∧ rel.id = oid := by
  have nobody : relationships.filter (·.id = 0) = [] := filter_eq_nil_iff.mpr (by simpa using named)
  rw [memberGetRelationship, nobody, getLast?_nil, Option.or_none] at found
  exact ⟨mem_of_find?_eq_some found, by simpa using find?_some found⟩

variable {nohear nospeak : Bool}

theorem sound_search (sound : w.Sound) (member : call ∈ w.calls)
    (phase : call.phase = .searching nospeak nohear) : (w.advance call).Sound := by
  have idle := call.not_marks (by simp [phase])
  have holds : call.holdsOther = true := by simp [RelateCall.holdsOther, phase]
  unfold advance
  rw [phase]
  refine { sound with calls := ?_, met := ?_ }
  · refine sound.calls.setPhase member holds fun nospeak' nohear' addr marking => ?_
    split at marking
    next rel found =>
      cases marking
      obtain ⟨inList, same⟩ := memberGetRelationship_some (sound.lists.named call.id) found
      refine ⟨sound.lists.allocated _ rel inList, fun a other inList' sameAddr => ?_⟩
      obtain ⟨sameMember, sameId⟩ := sound.lists.placed a call.id other inList' rel inList sameAddr
      exact ⟨sameMember, sameId.trans same⟩
    next => cases marking
  · intro a b unmarked
    exact sound.met a b (sound.calls.unmarked_of_setPhase member (idle a b) unmarked)

theorem sound_add (sound : w.Sound) (member : call ∈ w.calls)
    (phase : call.phase = .adding nospeak nohear)
    (absent : ∀ rel ∈ w.conf.rels call.id, rel.id ≠ call.oid)
    (room : w.conf.relationshipTotal + 1 < 2 ^ 32) : (w.advance call).Sound := by
  have idle := call.not_marks (by simp [phase])
  have holds : call.holdsOther = true := by simp [RelateCall.holdsOther, phase]
  obtain ⟨own, other⟩ := sound.calls.held call member
  have some : call.oid ≠ 0 := (sound.fresh _ (other holds)).1.ne'
  have rels : (w.conf.relate (changeAt call.id (⟨w.nextRel, call.oid, false, false⟩ :: ·))).rels =
      fun a => changeAt call.id (⟨w.nextRel, call.oid, false, false⟩ :: ·) a (w.conf.rels a) :=
    rels_changeAt own _
  have related : (w.conf.relate
      (changeAt call.id (⟨w.nextRel, call.oid, false, false⟩ :: ·))).related =
      w.conf.related + 1 := by
    refine related_of_longer (ids_relate _) own fun a => ?_
    rw [rels]
    dsimp only [changeAt]
    split <;> rfl
  have lists := sound.lists.add some absent false false
  unfold advance
  rw [phase]
  dsimp only
  rw [if_neg some, Unsigned.add_of_lt room]
  refine ⟨?_, ?_, ?_, ?_, room, ?_, ?_⟩
  · exact (ids_relate _).symm ▸ sound.distinct
  · exact (ids_relate _).symm ▸ sound.fresh
  · exact rels.symm ▸ lists
  · exact related.le.trans (Nat.succ_le_succ sound.total)
  · -- the address of the new relationship is new
    have before : CallsSound w.conf.ids (w.nextRel + 1)
        (fun a => changeAt call.id (⟨w.nextRel, call.oid, false, false⟩ :: ·) a (w.conf.rels a))
        w.calls := by
      refine ⟨sound.calls.threads, sound.calls.held, fun c inList ns nh addr marking => ?_⟩
      obtain ⟨allocated, ownRel⟩ := sound.calls.marked c inList ns nh addr marking
      refine ⟨Nat.lt_succ_of_lt allocated, fun a rel inRels same => ?_⟩
      rcases mem_changeAt_cons.mp inRels with ⟨-, rfl⟩ | old
      · exact absurd same allocated.ne'
      · exact ownRel a rel old same
    show CallsSound (w.conf.relate _).ids _ (w.conf.relate _).rels _
    rw [rels, ids_relate]
    refine before.setPhase member holds fun ns nh addr marking => ?_
    cases marking
    refine ⟨Nat.lt_succ_self _, fun a rel inRels same => ?_⟩
    rcases mem_changeAt_cons.mp inRels with ⟨here, rfl⟩ | old
    · exact ⟨here, rfl⟩
    · exact absurd same (sound.lists.allocated a rel old).ne
  · intro a b unmarked
    have elsewhere : ¬ (a = call.id ∧ b = call.oid) := by
      rintro ⟨rfl, rfl⟩
      exact unmarked { call with phase := .marking nospeak nohear w.nextRel }
        ((sound.calls.mem_setPhase member _).mpr (.inr rfl)) ⟨rfl, rfl, _, _, _, rfl⟩
    refine (sound.met a b
      (sound.calls.unmarked_of_setPhase member (idle a b) unmarked)).trans ?_
    congr 1
    show _ = find? _ ((w.conf.relate _).rels a)
    rw [rels]
    dsimp only [changeAt]
    split
    next here => rw [find?_cons_of_neg (by simpa using fun same => elsewhere ⟨here, same.symm⟩)]
    next => rfl

theorem find?_mark {relationships : List Relationship} {addr : Nat} (nospeak nohear : Bool) (oid : Nat) :
    (relationships.map (mark addr nospeak nohear)).find? (·.id = oid) =
      (relationships.find? (·.id = oid)).map (mark addr nospeak nohear) := by
  rw [find?_map]
  congr 2
  funext rel
  rw [Function.comp_apply, mark_id]

theorem sound_mark (sound : w.Sound) (member : call ∈ w.calls) {addr : Nat}
    (phase : call.phase = .marking nospeak nohear addr)
    (present : ∃ rel ∈ w.conf.rels call.id, rel.addr = addr) : (w.advance call).Sound := by
  obtain ⟨rel, inList, atAddr⟩ := present
  obtain ⟨-, ownRel⟩ := sound.calls.marked call member nospeak nohear addr phase
  have named : rel.id = call.oid := (ownRel call.id rel inList atAddr).2
  have rels : (w.conf.relate fun _ => map (mark addr nospeak nohear)).rels =
      fun a => (w.conf.rels a).map (mark addr nospeak nohear) := by
    funext a
    exact rels_relate (fun _ _ => rfl) a
  have related : (w.conf.relate fun _ => map (mark addr nospeak nohear)).related =
      w.conf.related := by
    unfold related
    rw [ids_relate, rels]
    simp only [length_map]
  unfold advance
  rw [phase]
  refine ⟨?_, ?_, ?_, ?_, sound.bounded, ?_, ?_⟩
  · exact (ids_relate _).symm ▸ sound.distinct
  · exact (ids_relate _).symm ▸ sound.fresh
  · exact rels.symm ▸ sound.lists.mark addr nospeak nohear
  · exact related.le.trans sound.total
  · have fewer := sound.calls.sublist (filter_sublist : (w.endCall call.thread).Sublist w.calls)
    have kept : CallsSound w.conf.ids w.nextRel
        (fun a => (w.conf.rels a).map (mark addr nospeak nohear))
        (w.endCall call.thread) := by
      refine fewer.mono (fun _ old => old) fun a rel inRels => ?_
      obtain ⟨old, inOld, rfl⟩ := mem_map.mp inRels
      exact ⟨old, inOld, mark_addr .., mark_id ..⟩
    exact rels.symm ▸ (ids_relate _).symm ▸ kept
  · intro a b unmarked
    show w.want call.id call.oid _ a b = (find? _ ((w.conf.relate _).rels a)).map _
    rw [rels]
    dsimp only [want]
    rw [find?_mark, Option.map_map]
    by_cases here : a = call.id ∧ b = call.oid
    · -- the relationship that is found is the one that was marked
      obtain ⟨rfl, rfl⟩ := here
      rw [if_pos ⟨rfl, rfl⟩, sound.lists.find?_eq inList named]
      simp [mark, atAddr]
    · have idle : ¬ call.marks a b := fun marks => here ⟨marks.1.symm, marks.2.1.symm⟩
      rw [if_neg here, sound.met a b (sound.calls.unmarked_of_endCall member idle unmarked)]
      cases found : (w.conf.rels a).find? (·.id = b) with
      | none => rfl
      | some other =>
        have same : other.id = b := by simpa using find?_some found
        have elsewhere : other.addr ≠ addr := fun sameAddr => by
          obtain ⟨sameMember, sameId⟩ := ownRel a other (mem_of_find?_eq_some found) sameAddr
          exact here ⟨sameMember, same.symm.trans sameId⟩
        simp [mark, elsewhere]

theorem sound_clear (sound : w.Sound) (member : call ∈ w.calls) (phase : call.phase = .clearing) :
    (w.advance call).Sound := by
  have idle := call.not_marks (by simp [phase])
  obtain ⟨own, -⟩ := sound.calls.held call member
  have removed (a : Nat) : memberDelRelationship (w.conf.rels a) call.oid =
      ((w.conf.rels a).filter (·.id ≠ call.oid), (w.conf.rels a).countP (·.id = call.oid)) :=
    memberDelRelationship_spec (sound.lists.distinct a) (sound.lists.unique a) (sound.lists.named a)
  obtain ⟨conf', isConf⟩ : ∃ conf' : Conference, conf' = w.conf.relate
    (changeAt call.id fun rels => (memberDelRelationship rels call.oid).1) := ⟨_, rfl⟩
  have ids : conf'.ids = w.conf.ids := isConf ▸ ids_relate _
  have rels : conf'.rels =
      fun a => if a = call.id then (w.conf.rels a).filter (·.id ≠ call.oid) else w.conf.rels a := by
    funext a
    rw [isConf, rels_changeAt own]
    dsimp only [changeAt]
    rw [removed]
  have fewer : ∀ a, (conf'.rels a).Sublist (w.conf.rels a) := fun a => by
    rw [rels]
    dsimp only
    split
    · exact filter_sublist
    · exact Sublist.refl _
  have related : conf'.related + (w.conf.rels call.id).countP (·.id = call.oid) = w.conf.related := by
    refine (related_of_longer ids.symm (ids ▸ own) fun a => ?_).symm
    rw [rels]
    dsimp only
    split
    next here =>
      subst here
      rw [← countP_eq_length_filter, Nat.add_comm,
        length_eq_countP_add_countP fun rel => rel.id = call.oid]
      simp
    next => rfl
  have enough := related.le.trans sound.total
  unfold advance
  rw [phase]
  rw [← isConf, removed, Unsigned.sub_of_le (by omega) sound.bounded]
  refine ⟨?_, ?_, ?_, ?_, ?_, ?_, ?_⟩
  · exact ids.symm ▸ sound.distinct
  · exact ids.symm ▸ sound.fresh
  · exact sound.lists.of_sublist fewer
  · show conf'.related ≤ _
    dsimp only
    omega
  · exact (Nat.sub_le _ _).trans_lt sound.bounded
  · have kept := (sound.calls.sublist
      (filter_sublist : (w.endCall call.thread).Sublist w.calls)).mono (fun _ old => old)
      fun a rel inRels => ⟨rel, (fewer a).subset inRels, rfl, rfl⟩
    exact ids.symm ▸ kept
  · intro a b unmarked
    have before := sound.met a b (sound.calls.unmarked_of_endCall member (idle a b) unmarked)
    show w.want call.id call.oid _ a b = (find? _ (conf'.rels a)).map _
    rw [rels]
    dsimp only [want]
    by_cases own : a = call.id
    · rw [if_pos own, find?_filter]
      by_cases named : b = call.oid
      · rw [if_pos ⟨own, named⟩, find?_eq_none.mpr (by simp [named])]
        rfl
      · rw [if_neg fun both => named both.2, before]
        congr 2
        funext rel
        by_cases same : rel.id = b <;> simp [same, named]
    · rw [if_neg fun both => own both.1, if_neg own, before]

theorem sound_step (w : RelateWorld) (op : RelateOp) (sound : w.Sound) (alone : w.Alone op) :
    (w.step op).Sound := by
  cases op with
  | join member => exact sound_join sound member alone
  | leave id => exact sound_leave sound id
  | change id member => exact sound_change sound id member
  | relate thread id oid word found foundOther =>
    exact sound_relate sound thread id oid word found foundOther
  | proceed thread =>
    rw [step]
    split
    · exact sound
    next call found =>
      have member : call ∈ w.calls := mem_of_find?_eq_some found
      have fine := alone call member (by simpa using find?_some found)
      cases phase : call.phase with
      | searching => exact sound_search sound member phase
      | adding =>
        rw [RelateWorld.Undisturbed, phase] at fine
        exact sound_add sound member phase fine.1 fine.2
      | marking =>
        rw [RelateWorld.Undisturbed, phase] at fine
        exact sound_mark sound member phase fine
      | clearing => exact sound_clear sound member phase

end Steps

/-! ### What the mixer finds -/

section Silenced

variable {w : RelateWorld}

/-- `imember` may not speak to `omember`, or `omember` may not hear it. -/
def RelateWorld.Silenced (w : RelateWorld) (imember omember : Nat) : Prop :=
  (∃ wish, w.wanted imember omember = some wish ∧ wish.1 = false) ∨
    ∃ wish, w.wanted omember imember = some wish ∧ wish.2 = false

instance RelateWorld.decidableSilenced (w : RelateWorld) (imember omember : Nat) :
    Decidable (w.Silenced imember omember) := by
  unfold Silenced
  infer_instance

variable {m : ConfMember} {oid : Nat}

theorem RelateWorld.Sound.wanted_iff (sound : w.Sound) (member : m ∈ w.conf.members)
    (unmarked : Unmarked w.calls m.id oid) {wish : Bool × Bool} :
    w.wanted m.id oid = some wish ↔
      ∃ rel ∈ m.relationships, rel.id = oid ∧ (rel.canSpeak, rel.canHear) = wish := by
  have lists := rels_of_mem sound.distinct member
  rw [sound.met m.id oid unmarked, Option.map_eq_some_iff]
  constructor
  · rintro ⟨rel, found, isWish⟩
    exact ⟨rel, lists ▸ mem_of_find?_eq_some found, by simpa using find?_some found, isWish⟩
  · rintro ⟨rel, inList, same, isWish⟩
    exact ⟨rel, sound.lists.find?_eq (lists ▸ inList) same, isWish⟩

theorem RelateWorld.Sound.any_iff (sound : w.Sound) (member : m ∈ w.conf.members)
    (unmarked : Unmarked w.calls m.id oid) (denied : Bool × Bool → Bool) :
    (m.relationships.any fun rel =>
      (rel.id = oid || rel.id = 0) && denied (rel.canSpeak, rel.canHear)) = true ↔
      ∃ wish, w.wanted m.id oid = some wish ∧ denied wish = true := by
  rw [any_eq_true]
  constructor
  · rintro ⟨rel, inList, both⟩
    have both : (rel.id = oid ∨ rel.id = 0) ∧ denied (rel.canSpeak, rel.canHear) = true := by
      simpa using both
    have named : rel.id ≠ 0 :=
      sound.lists.named m.id rel ((rels_of_mem sound.distinct member).symm ▸ inList)
    exact ⟨_, (sound.wanted_iff member unmarked).mpr
      ⟨rel, inList, both.1.resolve_right named, rfl⟩, both.2⟩
  · rintro ⟨wish, wanted, isDenied⟩
    obtain ⟨rel, inList, same, rfl⟩ := (sound.wanted_iff member unmarked).mp wanted
    exact ⟨rel, inList, by simp [same, isDenied]⟩

theorem RelateWorld.Sound.total_ne_zero (sound : w.Sound) (member : m ∈ w.conf.members)
    (unmarked : Unmarked w.calls m.id oid) {wish : Bool × Bool}
    (wanted : w.wanted m.id oid = some wish) :
    w.conf.relationshipTotal ≠ 0 := by
  obtain ⟨rel, inList, -, -⟩ := (sound.wanted_iff member unmarked).mp wanted
  rw [← rels_of_mem sound.distinct member] at inList
  have inIds : m.id ∈ w.conf.ids.toFinset := mem_toFinset.mpr (mem_map_of_mem member)
  have one : 0 < (w.conf.rels m.id).length := length_pos_of_mem inList
  have all : (w.conf.rels m.id).length ≤ w.conf.related :=
    Finset.single_le_sum (f := fun a => (w.conf.rels a).length) (fun _ _ => Nat.zero_le _) inIds
  have := sound.total
  omega

theorem RelateWorld.Sound.silences_iff (sound : w.Sound) {imember omember : ConfMember}
    (speaker : imember ∈ w.conf.members) (listener : omember ∈ w.conf.members)
    (unmarked : Unmarked w.calls imember.id omember.id)
    (unmarked' : Unmarked w.calls omember.id imember.id) :
    (w.conf.relationshipTotal ≠ 0 ∧ silences imember omember = true) ↔
      w.Silenced imember.id omember.id := by
  have speaks := sound.any_iff speaker unmarked fun wish => !wish.1
  have hears := sound.any_iff listener unmarked' fun wish => !wish.2
  simp only [Bool.not_eq_true'] at speaks hears
  rw [silences, Bool.or_eq_true, speaks, hears]
  constructor
  · exact fun both => both.2
  · intro silenced
    refine ⟨?_, silenced⟩
    rcases silenced with ⟨wish, wanted, -⟩ | ⟨wish, wanted, -⟩
    · exact sound.total_ne_zero speaker unmarked wanted
    · exact sound.total_ne_zero listener unmarked' wanted

end Silenced

end FreeSwitch
