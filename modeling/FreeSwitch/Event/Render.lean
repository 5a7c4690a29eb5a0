/-
**The value of an array header is drawn from its array.**

`value` repeats what `array` holds, and readers use the two interchangeably. Every path that writes
the array draws the value again except one, the assignment to an index the array already has.

* `HeaderStep.rendered`: the other paths keep the two in agreement;
* `rendered_iff_keeps_elements`: so does an addition that replaces no element by another text, and
  any run of them.
-/

import FreeSwitch.Event.Reach

namespace FreeSwitch

open CString List

def Header.Rendered (h : Header) : Prop := h.idx > 0 → h.value = some (render h.array)

def Rendered (e : Event) : Prop := ∀ h ∈ e.list, h.Rendered

def KeepsElements (e : Event) (a : Addition) : Prop :=
  ∀ h index, overwritten e a.name = some (h, index) →
    ∀ data, a.data = some data → h.array[index]? = some data

instance (h : Header) : Decidable h.Rendered :=
  inferInstanceAs (Decidable (h.idx > 0 → h.value = some (render h.array)))

theorem keepsElements_plain (e : Event) (a : Addition) (plain : (cut '[' a.name).2 = none) :
    KeepsElements e a := by
  intro h index written
  rw [overwritten_plain plain] at written
  cases written

/-! ### Drawing and elements -/

theorem render_of_two_le {array : List Text} (many : 2 ≤ array.length) :
    render array = arrayTag ++ arraySep.intercalate array := by
  match array, many with
  | _ :: _ :: _, _ => rfl

theorem render_set {array : List Text} {index : Nat} (below : index < array.length) (data : Text) :
    render (array.set index data) = render array ↔ array[index]? = some data := by
  rw [getElem?_eq_getElem below, Option.some_inj]
  by_cases many : 2 ≤ array.length
  · rw [render_of_two_le many, render_of_two_le (by rwa [length_set]),
      append_cancel_left_eq]
    obtain ⟨before, after, around⟩ :=
      intercalate_around arraySep (array.take index) (array.drop (index + 1))
    rw [set_eq_take_append_cons_drop, if_pos below, around]
    conv_lhs => rhs; rw [← take_append_drop index array, drop_eq_getElem_cons below, around]
    rw [append_cancel_right_eq, append_cancel_left_eq]
    exact eq_comm
  · obtain ⟨only, rfl⟩ := length_eq_one_iff.mp (by omega : array.length = 1)
    obtain rfl : index = 0 := by simpa using below
    exact eq_comm

/-! ### One addition -/

variable {e : Event}

theorem HeaderStep.rendered {name : Text} {e' : Event} (step : HeaderStep name e e')
    (linked : e.headers.Linked) (drawn : Rendered e) : Rendered e' := by
  refine step.forall_headers ?_ ?_ ?_ linked drawn
  · intro h index data above _ _
    rw [addIndexed_grow above]
  · intro h stack data _ _
    rw [pushOnto_eq]
  · intro stack data _ _ _ filled
    unfold linkedHeader Header.idx at *
    split at filled
    next pushes =>
      rw [if_pos pushes]
      rfl
    · exact absurd filled (lt_irrefl 0)

theorem rendered_overwrite {h : Header} {index : Nat} (below : index < h.idx) (drawn : h.Rendered)
    (data : Text) : (addIndexed index data h).Rendered ↔ h.array[index]? = some data := by
  rw [addIndexed_overwrite below, ← render_set below]
  unfold Header.Rendered Header.idx
  rw [length_set, drawn (by omega), Option.some_inj]
  exact ⟨fun redrawn => (redrawn (Nat.zero_lt_of_lt below)).symm, fun same _ => same.symm⟩

/-- **An addition keeps the headers drawn exactly when it replaces no element by another text.** -/
theorem applyAddition_rendered (wf : WellFormed e) (drawn : Rendered e) (a : Addition) :
    Rendered (applyAddition e a) ↔ KeepsElements e a := by
  obtain ⟨stack, name, data⟩ := a
  cases data with
  | none => exact iff_of_true drawn fun _ _ _ _ absurdData => by cases absurdData
  | some data =>
    show Rendered (eventBaseAddHeader e stack name data) ↔ _
    cases written : overwritten e name with
    | none =>
      refine iff_of_true ?_ fun h index hit => by rw [written] at hit; cases hit
      refine (HeaderSteps.keeps (P := fun e => WellFormed e ∧ Rendered e) (fun _ _ step start => ?_)
        (eventBaseAddHeader_steps data e stack name written) ⟨wf, drawn⟩).2
      exact ⟨step.wellFormed start.1, step.rendered start.1.linked start.2⟩
    | some place =>
      obtain ⟨h, index⟩ := place
      obtain ⟨-, -, -, -, found, below⟩ := overwritten_eq_some written
      have member : h ∈ e.list := mem_of_find?_eq_some found
      have spared : KeepsElements e ⟨stack, name, some data⟩ ↔ h.array[index]? = some data := by
        refine ⟨fun keeps => keeps h index written data rfl, fun same _ _ hit _ given => ?_⟩
        rw [written] at hit
        cases hit
        cases given
        exact same
      rw [eventBaseAddHeader_overwrite written, spared,
        ← rendered_overwrite below (drawn h member) data]
      simp only [Rendered, Event.list, Chain.contents_modify]
      exact Chain.forall_modifyFirst found fun other inside => drawn other inside

/-! ### Runs -/

theorem eventDelHeaderVal_rendered (drawn : Rendered e) (name : Text) (val : Option Text) :
    Rendered (eventDelHeaderVal e name val).1 := by
  intro h member
  simp only [Event.list, eventDelHeaderVal, Chain.contents_delete, mem_filter] at member
  exact drawn h member.1

theorem eventRenameHeader_rendered (drawn : Rendered e) (name newName : Text) :
    Rendered (eventRenameHeader e name newName).1 := by
  intro h member
  simp only [Event.list, eventRenameHeader, Chain.contents_mapData] at member
  obtain ⟨old, inside, rfl⟩ := mem_map.mp member
  unfold renameHeader
  split <;> exact drawn old inside

theorem ReachedBy.rendered (reached : ReachedBy KeepsElements e) : Rendered e := by
  have both : WellFormed e ∧ Rendered e := by
    refine reached.induct_headers (P := fun e => WellFormed e ∧ Rendered e) keepsElements_plain
      ?_ ?_ ?_ ?_ ?_
    · intro e nothing
      have list : e.list = [] := by rw [Event.list, nothing, Chain.contents_empty]
      refine ⟨⟨nothing ▸ Chain.empty_linked, ?_⟩, ?_⟩
      · simp [list]
      · simp [Rendered, list]
    · intro e e' same both
      have list : e.list = e'.list := by rw [Event.list, same, Event.list]
      exact ⟨⟨same ▸ both.1.linked, list ▸ both.1.good⟩, fun h member => both.2 h (list ▸ member)⟩
    · intro e a both keeps
      exact ⟨applyAddition_wellFormed both.1 a, (applyAddition_rendered both.1 both.2 a).mpr keeps⟩
    · exact fun e name val both =>
        ⟨eventDelHeaderVal_wellFormed both.1 name val, eventDelHeaderVal_rendered both.2 name val⟩
    · exact fun e name newName both => ⟨eventRenameHeader_wellFormed both.1 name newName,
        eventRenameHeader_rendered both.2 name newName⟩
  exact both.2

/-- **The drawn headers of a run.** Every event reached by additions that replace no array element
by another text, with deletions, renames, merges and copies between them, has every array header's
value drawn from its array; and the next addition keeps that exactly when it is such an addition. -/
theorem rendered_iff_keeps_elements {e : Event} (reached : ReachedBy KeepsElements e) :
    (∀ h ∈ e.list, h.idx > 0 → h.value = some (render h.array)) ∧
      ∀ a, (∀ h ∈ (applyAddition e a).list, h.idx > 0 → h.value = some (render h.array)) ↔
        KeepsElements e a :=
  ⟨reached.rendered,
    applyAddition_rendered (reached.wellFormed keepsElements_plain) reached.rendered⟩

/-- The run that only builds the pair is drawn. -/
theorem rendered_pairEvent : ReachedBy KeepsElements pairEvent ∧
    ∀ h ∈ pairEvent.list, h.idx > 0 → h.value = some (render h.array) :=
  ⟨pairEvent_reachedBy keepsElements_plain,
    (rendered_iff_keeps_elements (pairEvent_reachedBy keepsElements_plain)).1⟩

/-- **An overwritten element does not reach the value**: after `a[0] = z` the array of `a` is
`z`, `y` and its value still spells `x` and `y`. -/
theorem overwritten_element_not_drawn :
    let e := applyAddition pairEvent ⟨Stack.bottom, "a[0]".toList, some ['z']⟩
    Reached e ∧ ∃ h ∈ e.list, h.idx > 0 ∧ h.array = [['z'], ['y']] ∧
      h.value = some "ARRAY::x|:y".toList ∧ h.value ≠ some (render h.array) := by
  refine ⟨.add _ _ (pairEvent_reachedBy fun _ _ _ => trivial) trivial, ?_⟩
  decide +kernel

end FreeSwitch
