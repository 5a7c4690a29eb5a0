/-
**The events the header functions reach.**

`ReachedBy ok` holds of every event built by creation and then any sequence of additions,
deletions, renames, merges with any other event and copies, where `ok` may restrict the single
additions (those a merge or a copy makes included). `Reached` restricts nothing.

`ReachedBy.induct_headers` is the induction every invariant of these events uses, and
`ReachedBy.wellFormed` its first instance.
-/

import FreeSwitch.Event.Step

namespace FreeSwitch

open CString List Run

/-- An event built by the public header functions, with additions that `ok` allows. -/
inductive ReachedBy (ok : Event → Addition → Prop) : Event → Prop
  | create (info : Delivery) (id : EventType) (subclass : Option Text) (e : Event) :
      eventCreateSubclass info id subclass = some e → ReachedBy ok e
  | createPlain (id : EventType) : ReachedBy ok (eventCreatePlain id)
  | add (e : Event) (a : Addition) : ReachedBy ok e → ok e a → ReachedBy ok (applyAddition e a)
  | delVal (e : Event) (name : Text) (val : Option Text) :
      ReachedBy ok e → ReachedBy ok (eventDelHeaderVal e name val).1
  | rename (e : Event) (name newName : Text) :
      ReachedBy ok e → ReachedBy ok (eventRenameHeader e name newName).1
  | merge (e tomerge : Event) : ReachedBy ok e → Along applyAddition ok e (mergeAdds tomerge) →
      ReachedBy ok (eventMerge e tomerge)
  | dup (todup : Event) : ReachedBy ok todup →
      Along applyAddition ok (dupStart todup) (dupAdds todup) → ReachedBy ok (eventDup todup)

abbrev Reached : Event → Prop := ReachedBy fun _ _ => True

/-! ### The additions of a new event -/

def prepAdds (info : Delivery) (id : EventType) : List Addition :=
  (deliveryHeaders info id).map fun header => ⟨Stack.bottom, header.1, header.2⟩

theorem eventPrepForDelivery_eq (info : Delivery) (e : Event) :
    eventPrepForDelivery info e = applyAdditions e (prepAdds info e.eventId) := by
  unfold eventPrepForDelivery applyAdditions run prepAdds
  rw [foldl_map]
  rfl

theorem prepAdds_plain (info : Delivery) (id : EventType) :
    ∀ a ∈ prepAdds info id, (cut '[' a.name).2 = none := by
  have names : ∀ header ∈ deliveryHeaders info id, '[' ∉ header.1 := by
    simp only [deliveryHeaders, forall_mem_cons, not_mem_nil, false_implies, implies_true,
      and_true]
    decide
  intro a member
  obtain ⟨header, inside, rfl⟩ := mem_map.mp member
  simp only
  rw [cut_of_not_mem (names header inside)]

/-! ### Induction over the events -/

/-- **An invariant of the header list holds of every event reached**: it holds of the empty list, it
depends on the list alone, and the three ways to change the list keep it. -/
theorem ReachedBy.induct_headers {ok : Event → Addition → Prop} {P : Event → Prop}
    (free : ∀ e a, (cut '[' a.name).2 = none → ok e a)
    (empty : ∀ e, e.headers = Chain.empty → P e)
    (congr : ∀ e e', e.headers = e'.headers → P e → P e')
    (add : ∀ e a, P e → ok e a → P (applyAddition e a))
    (delVal : ∀ e name val, P e → P (eventDelHeaderVal e name val).1)
    (rename : ∀ e name newName, P e → P (eventRenameHeader e name newName).1)
    {e : Event} (reached : ReachedBy ok e) : P e := by
  have subclassKeeps : ∀ subclass e, P e → P (eventAddSubclass subclass e) := by
    intro subclass e holds
    cases subclass with
    | none => exact holds
    | some name =>
      refine add _ ⟨Stack.bottom, "Event-Subclass", some name⟩ (congr e _ rfl holds) ?_
      have plain : (cut '[' "Event-Subclass").2 = none := by decide
      exact free _ _ plain
  induction reached with
  | create info id subclass e created =>
    unfold eventCreateSubclass at created
    split at created
    · cases created
    · cases created
      refine subclassKeeps _ _ ?_
      split
      · rw [eventPrepForDelivery_eq]
        refine run_keeps add (empty _ rfl) (along_of_forall (fun a member e => ?_) _)
        exact free e a (prepAdds_plain info id a member)
      · exact empty _ rfl
  | createPlain id => exact empty _ rfl
  | add e a _ allowed ih => exact add e a ih allowed
  | delVal e name val _ ih => exact delVal e name val ih
  | rename e name newName _ ih => exact rename e name newName ih
  | merge e tomerge _ allowed ih =>
    rw [eventMerge_eq]
    exact run_keeps add ih allowed
  | dup todup _ allowed _ =>
    rw [eventDup_eq]
    refine congr (applyAdditions (dupStart todup) (dupAdds todup)) _ rfl ?_
    refine run_keeps add ?_ allowed
    exact congr (eventAddSubclass todup.subclassName (eventAlloc .clone)) _ rfl
      (subclassKeeps _ _ (empty _ rfl))

/-! ### Every event is well formed -/

theorem applyAddition_wellFormed {e : Event} (wf : WellFormed e) (a : Addition) :
    WellFormed (applyAddition e a) := by
  obtain ⟨stack, name, data⟩ := a
  cases data with
  | none => exact wf
  | some data =>
    show WellFormed (eventBaseAddHeader e stack name data)
    cases written : overwritten e name with
    | none =>
      exact HeaderSteps.keeps (fun _ _ step => step.wellFormed)
        (eventBaseAddHeader_steps data e stack name written) wf
    | some place =>
      obtain ⟨h, index⟩ := place
      obtain ⟨text, -, -, -, found, below⟩ := overwritten_eq_some written
      rw [eventBaseAddHeader_overwrite written]
      refine ⟨Chain.modify_linked wf.linked _ _, fun new member => ?_⟩
      simp only [Event.list, Chain.contents_modify] at member
      rcases Chain.mem_modifyFirst member with old | ⟨other, found', rfl⟩
      · exact wf.good new old
      · rw [show e.headers.contents.find? (Header.hasName (cut '[' name).1) = some h from found]
          at found'
        cases found'
        have good := wf.good h (mem_of_find?_eq_some found)
        rw [addIndexed_overwrite below]
        refine ⟨good.hashed, good.valued, fun nothing => ?_⟩
        have size := congrArg List.length nothing
        simp only [length_set, length_nil] at size
        rw [Header.idx, size] at below
        exact absurd below (Nat.not_lt_zero _)

theorem eventDelHeaderVal_wellFormed {e : Event} (wf : WellFormed e) (name : Text)
    (val : Option Text) : WellFormed (eventDelHeaderVal e name val).1 where
  linked := Chain.delete_linked wf.linked _
  good := by
    intro h member
    simp only [Event.list, eventDelHeaderVal, Chain.contents_delete, mem_filter] at member
    exact wf.good h member.1

theorem eventRenameHeader_wellFormed {e : Event} (wf : WellFormed e) (name newName : Text) :
    WellFormed (eventRenameHeader e name newName).1 where
  linked := Chain.mapData_linked wf.linked _
  good := by
    intro h member
    simp only [Event.list, eventRenameHeader, Chain.contents_mapData] at member
    obtain ⟨old, inside, rfl⟩ := mem_map.mp member
    have good := wf.good old inside
    unfold renameHeader
    split
    · exact ⟨rfl, good.valued, good.scalar⟩
    · exact good

theorem ReachedBy.wellFormed {ok : Event → Addition → Prop}
    (free : ∀ e a, (cut '[' a.name).2 = none → ok e a) {e : Event} (reached : ReachedBy ok e) :
    WellFormed e := by
  refine reached.induct_headers free ?_ ?_ ?_ ?_ ?_
  · intro e nothing
    exact ⟨nothing ▸ Chain.empty_linked, by simp [Event.list, nothing]⟩
  · intro e e' same wf
    exact ⟨same ▸ wf.linked, fun h member => wf.good h (by rwa [Event.list, same])⟩
  · exact fun e a wf _ => applyAddition_wellFormed wf a
  · exact fun e name val wf => eventDelHeaderVal_wellFormed wf name val
  · exact fun e name newName wf => eventRenameHeader_wellFormed wf name newName

/-! ### An event -/

/-- The event that holds one header `a` with the array `x`, `y`. -/
def pairEvent : Event :=
  applyAddition (eventAlloc .clone) ⟨Stack.bottom, ['a'], some "ARRAY::x|:y"⟩

theorem pairEvent_reachedBy {ok : Event → Addition → Prop}
    (free : ∀ e a, (cut '[' a.name).2 = none → ok e a) : ReachedBy ok pairEvent :=
  .add _ _ (.create default .clone none _ rfl) (free _ _ (by decide))

theorem pairEvent_list :
    pairEvent.list = [⟨['a'], some "ARRAY::x|:y", [['x'], ['y']], ciHash ['a']⟩] := by
  decide +kernel

end FreeSwitch
