/-
**The filters of a listener.**

`filter` adds a filter to a listener, or deletes some. They are the headers of an event, and to add a
header with an empty value is to delete all of its name.

* `filters_right_iff`: when the filters decide as they should, in every state of a run.
-/

import FreeSwitch.Event.Unique
import FreeSwitch.EventSocket.Subscriptions

namespace FreeSwitch

open CString List Run

/-! ### Matching -/

abbrev Filter := Text × Text

namespace Filter

/-- A filter is negative if `-` is the last sign in front of its value. -/
def Positive (f : Filter) : Prop := (filterSign true f.2).1 = true

/-- The event has the header, with the value behind the signs; one that begins with `/` is a regular
expression. -/
def Matches (regex : Text → Text → Bool) (event : Event) (f : Filter) : Prop :=
  ∃ hval ∈ eventGetHeader event f.1,
    (if f.2.head? = some '/' then regex hval (filterSign true f.2).2
      else ciEq hval (filterSign true f.2).2) = true

/-- **What filters let through.** -/
def Pass (regex : Text → Text → Bool) (event : Event) (filters : Multiset Filter) : Prop :=
  filters = 0 ∨ (∃ f ∈ filters, f.Positive ∧ f.Matches regex event) ∧
    ∀ f ∈ filters, f.Matches regex event → f.Positive

end Filter

def Header.filter (h : Header) : Filter := (h.name, h.value.getD [])

theorem filterLoop_iff {regex : Text → Text → Bool} {event : Event} {hps : List Header}
    (valued : ∀ hp ∈ hps, ∃ v, hp.value = some v) (send : Bool) :
    filterLoop regex event hps send = true ↔
      (send = true ∨ ∃ hp ∈ hps, hp.filter.Positive ∧ hp.filter.Matches regex event) ∧
        ∀ hp ∈ hps, hp.filter.Matches regex event → hp.filter.Positive := by
  induction hps generalizing send with
  | nil => simp [filterLoop]
  | cons hp hps ih =>
    obtain ⟨value, same⟩ := valued hp mem_cons_self
    have rest := ih fun hp member => valued hp (mem_cons_of_mem _ member)
    have filter : hp.filter = (hp.name, value) := by rw [Header.filter, same, Option.getD_some]
    rw [filterLoop, same, forall_mem_cons]
    simp only [mem_cons, exists_eq_or_imp]
    rw [filter, Filter.Matches, Filter.Positive]
    cases eventGetHeader event hp.name with
    | none => simp [rest]
    | some hval =>
      simp only [Option.mem_def, Option.some.injEq, exists_eq_left']
      generalize (if value.head? = some '/' then regex hval _ else _) = cmp
      cases positive : (filterSign true value).1 <;> cases send <;> cases cmp <;> simp [rest]

/-! ### The commands -/

inductive FilterRequest
  | add (prefixed : Bool) (name value : Text)
  | delete (name : Text) (value : Option Text)
  | deleteAll

namespace FilterRequest

/-- The text behind `filter`. -/
def line : FilterRequest → Text
  | add true name value => "add" ++ ' ' :: (name ++ ' ' :: value)
  | add false name value => name ++ ' ' :: value
  | delete name value => "delete" ++ ' ' :: (name ++ value.elim [] fun value => ' ' :: value)
  | deleteAll => "delete all"

def Proper : FilterRequest → Prop
  | add prefixed name value => ' ' ∉ name ∧ '[' ∉ name ∧ ¬ arrayTag <:+: value ∧
      (prefixed = false → ciEq name "add" = false ∧ ciEq name "delete" = false)
  | delete name _ => ' ' ∉ name ∧ ciEq name "all" = false
  | deleteAll => True

def active (filters : Multiset Filter) : FilterRequest → Multiset Filter
  | add _ name value => (name, value) ::ₘ filters
  | delete name value => filters.filter fun f =>
      ¬ (ciEq f.1 name = true ∧ (value.getD [] = [] ∨ some f.2 = value))
  | deleteAll => 0

def Filled : FilterRequest → Prop
  | add _ _ value => value ≠ []
  | _ => True

def event (filters : Event) : FilterRequest → Event
  | add _ name value => eventAddHeaderString filters Stack.bottom name (some value)
  | delete name value => (eventDelHeaderVal filters name value).1
  | deleteAll => eventCreatePlain .clone

end FilterRequest

structure FilterCommand where
  env : Env
  packet : Event
  cmd : Text
  request : FilterRequest
  named : commandText packet = some cmd
  is : isCommand "filter " cmd = true
  line : skipSpaces (stripCr (cmd.drop 7)) = request.line
  proper : request.Proper

abbrev Filtered := Listener × Multiset Filter

namespace Filtered

def step (f : Filtered) (c : FilterCommand) : Filtered :=
  (commandStep f.1 (c.env, some c.packet), c.request.active f.2)

def list (l : Listener) : List Filter := l.filters.elim [] fun filters => filters.list.map Header.filter

/-- **The filters are those, and let through what they should.** -/
def Right (f : Filtered) : Prop :=
  list f.1 = f.2 ∧ ∀ regex event, filtersPass regex f.1 event = true ↔ Filter.Pass regex event f.2

structure Inv (f : Filtered) : Prop where
  authed : f.1.authed = true
  wf : ∀ filters ∈ f.1.filters, WellFormed filters
  several : ∀ filters ∈ f.1.filters, filters.uniqHeaders = false

end Filtered

open Filtered

open FilterRequest

section Commands

variable {l : Listener} {filters : Event} {request : FilterRequest}

theorem parseFilter_request {cmd : Text} (line : skipSpaces (stripCr (cmd.drop 7)) = request.line)
    (proper : request.Proper) :
    (parseFilter l cmd).listener = { l with
      filters := some (request.event (l.filters.getD (eventCreatePlain .clone))) } := by
  have fresh : ({ eventCreatePlain .clone with uniqHeaders := false } : Event) = eventCreatePlain .clone := by
    decide
  unfold parseFilter
  rw [line, fresh]
  cases request with
  | add prefixed name value =>
    obtain ⟨word, -, -, other⟩ := proper
    cases prefixed with
    | true =>
      have own : cut ' ' (add true name value).line =
        ("add".toList, some (name ++ ' ' :: value)) := cut_append_cons (by decide) _
      have not : ciEq "add".toList "delete".toList = false := by decide
      simp only [own, cut_append_cons word, not, ciEq_refl, Bool.false_eq_true, if_false, if_true]
      rfl
    | false =>
      have own : cut ' ' (add false name value).line = (name, some value) :=
        cut_append_cons word _
      simp only [own, (other rfl).1, (other rfl).2, Bool.false_eq_true, if_false]
      rfl
  | delete name value =>
    obtain ⟨word, other⟩ := proper
    have inner : cut ' ' (name ++ value.elim [] fun value => ' ' :: value) = (name, value) := by
      cases value with
      | none => rw [Option.elim_none, append_nil, cut_of_not_mem word]
      | some value => exact cut_append_cons word value
    have own : cut ' ' (delete name value).line = ("delete".toList, some _) :=
      cut_append_cons (by decide) _
    simp only [own, inner, ciEq_refl, other, Bool.false_eq_true, if_false, if_true]
    rfl
  | deleteAll => rfl

theorem FilterCommand.listener_eq (c : FilterCommand) (authed : l.authed = true) :
    commandStep l (c.env, some c.packet) = (parseFilter l c.cmd).listener := by
  have exit := isCommand_unrelated c.is (by decide : Unrelated "filter " "exit")
  have dots := isCommand_unrelated c.is (by decide : Unrelated "filter " "...")
  rw [commandStep, parseCommand_some c.named]
  simp [exit, dots, authed, parseAuthed, c.is]

theorem FilterRequest.event_list (wf : WellFormed filters) (several : filters.uniqHeaders = false)
    (proper : request.Proper) :
    ((request.event filters).list.map Header.filter =
      request.active (filters.list.map Header.filter : Multiset Filter)) ↔ request.Filled := by
  have deleted : ∀ name value, ((eventDelHeaderVal filters name value).1.list.map Header.filter :
      Multiset Filter) = (filters.list.map Header.filter : Multiset Filter).filter fun f =>
        ¬ (ciEq f.1 name = true ∧ (value.getD [] = [] ∨ some f.2 = value)) := by
    intro name value
    rw [Multiset.filter_coe, filter_map]
    congr 2
    rw [Event.list, eventDelHeaderVal, Chain.contents_delete]
    refine filter_congr fun h member => ?_
    obtain ⟨v, valued⟩ := (wf.good h member).valued
    rw [deletes, wf.hasName member]
    simp [Header.filter, valued, Bool.beq_eq_decide_eq]
  cases request with
  | add prefixed name value =>
    obtain ⟨-, plain, tagless, -⟩ := proper
    by_cases filled : value = []
    · -- an empty value deletes, so there is none more
      subst filled
      refine iff_of_false (fun same => ?_) fun filled => filled rfl
      have list : (eventBaseAddHeader filters Stack.bottom name []).list =
          (eventDelHeaderVal filters name none).1.list := by
        rw [eventBaseAddHeader_new (by rw [cut_of_not_mem plain]; intro pushes; cases pushes),
          cut_of_not_mem plain, addNew,
          if_pos rfl, eventDelHeader, Event.list, Event.list, eventDelHeaderVal, eventDelHeaderVal,
          withBody_headers]
      have more := congrArg Multiset.card same
      change Multiset.card ((eventBaseAddHeader filters Stack.bottom name []).list.map Header.filter :
        Multiset Filter) = _ at more
      rw [list, deleted, active, Multiset.card_cons] at more
      have fewer := Multiset.card_le_card (Multiset.filter_le (fun f : Filter =>
        ¬ (ciEq f.1 name = true ∧ ((none : Option Text).getD [] = [] ∨ some f.2 = none)))
        (filters.list.map Header.filter))
      omega
    · refine iff_of_true ?_ filled
      change (((eventBaseAddHeader filters Stack.bottom name value).list.map Header.filter : List Filter) :
        Multiset Filter) = _
      rw [eventBaseAddHeader_list_bottom wf.linked several plain filled tagless, map_append,
        active, ← Multiset.coe_add, add_comm]
      rfl
  | delete name value => exact iff_of_true (deleted name value) trivial
  | deleteAll => exact iff_of_true rfl trivial

end Commands

namespace Filtered.Inv

variable {f : Filtered}

theorem passes_iff (inv : f.Inv) (regex : Text → Text → Bool) (event : Event) :
    filtersPass regex f.1 event = true ↔ Filter.Pass regex event (list f.1) := by
  unfold filtersPass list
  cases found : f.1.filters with
  | none => simp [Filter.Pass]
  | some filters =>
    have loop := @filterLoop_iff regex event filters.list
      (fun hp member => ((inv.wf filters found).good hp member).valued) false
    cases hps : filters.list with
    | nil => simp [hps, Filter.Pass]
    | cons hp hps =>
      rw [hps] at loop
      simp [hps, Filter.Pass, loop]

theorem right_iff (inv : f.Inv) : f.Right ↔ (list f.1 : Multiset Filter) = f.2 :=
  ⟨And.left, fun same => ⟨same, fun regex event => same ▸ inv.passes_iff regex event⟩⟩

/-- **One command** keeps the invariant, and the filters right exactly if an added one has a value.
-/
theorem step (inv : f.Inv) (c : FilterCommand) :
    (f.step c).Inv ∧ (f.Right → ((f.step c).Right ↔ c.request.Filled)) := by
  obtain ⟨base, same, listed, wf, several⟩ : ∃ base,
      f.1.filters.getD (eventCreatePlain .clone) = base ∧ list f.1 = base.list.map Header.filter ∧
        WellFormed base ∧ base.uniqHeaders = false := by
    refine ⟨_, rfl, ?_⟩
    unfold list
    cases found : f.1.filters with
    | none => exact ⟨rfl, ⟨Chain.empty_linked, fun _ member => absurd member not_mem_nil⟩, by decide⟩
    | some filters => exact ⟨rfl, inv.wf filters found, inv.several filters found⟩
  have goes : (f.step c).1 = { f.1 with filters := some (c.request.event base) } := by
    rw [← same]
    exact (c.listener_eq inv.authed).trans (parseFilter_request c.line c.proper)
  have next : WellFormed (c.request.event base) ∧ (c.request.event base).uniqHeaders = false := by
    cases c.request with
    | add prefixed name value =>
      exact ⟨applyAddition_wellFormed wf ⟨Stack.bottom, name, some value⟩,
        (applyAddition_uniqHeaders base ⟨Stack.bottom, name, some value⟩).trans several⟩
    | delete name value => exact ⟨eventDelHeaderVal_wellFormed wf name value, several⟩
    | deleteAll => exact ⟨⟨Chain.empty_linked, fun _ member => absurd member not_mem_nil⟩, rfl⟩
  have after : (f.step c).Inv := by
    refine ⟨?_, ?_, ?_⟩
    all_goals rw [goes]
    · exact inv.authed
    · exact fun _ is => Option.some.inj is ▸ next.1
    · exact fun _ is => Option.some.inj is ▸ next.2
  refine ⟨after, fun right => ?_⟩
  rw [after.right_iff, goes, ← event_list wf several c.proper, ← listed,
    inv.right_iff.mp right]
  rfl

end Filtered.Inv

/-- **Filters.** In every state of a run of `filter` commands the filters are those that were added and
not deleted since, and an event passes if there are none, or some positive one matches and no negative
one does: exactly if every filter that is added has a value. -/
theorem filters_right_iff {l : Listener} (authed : l.authed = true) (fresh : l.filters = none)
    (commands : List FilterCommand) :
    (∀ done, done <+: commands → (run step (l, 0) done).Right) ↔
      ∀ c ∈ commands, c.request.Filled := by
  have inv : Inv (l, 0) := ⟨authed, by simp [fresh], by simp [fresh]⟩
  have start : Right (l, 0) := inv.right_iff.mpr (by simp [list, fresh])
  rw [always_iff_along (I := Inv) (fun f c inv => (inv.step c).1)
    (fun f c inv => (inv.step c).2) inv start, along_iff_forall]

/-- `filter Unique-ID abc`, and the same without a value. -/
def filterUuid : FilterCommand :=
  ⟨default, packetOf ["filter Unique-ID abc"], "filter Unique-ID abc\n\n",
    .add false "Unique-ID" "abc", by decide +kernel, by decide, by decide,
    by decide, by decide, by decide, by decide⟩

@[inherit_doc filterUuid]
def filterEmpty : FilterCommand :=
  ⟨default, packetOf ["filter Unique-ID "], "filter Unique-ID \n\n",
    .add false "Unique-ID" [], by decide +kernel, by decide, by decide,
    by decide, by decide, by decide, by decide⟩

theorem filters_right_uuid :
    (run step ({ inboundListener with authed := true }, 0) [filterUuid, filterUuid]).Right := by
  refine (filters_right_iff rfl rfl _).mpr (fun c member => ?_) _ (prefix_refl _)
  fin_cases member <;> exact cons_ne_nil _ _

/-- **A filter without a value deletes**: none is left. -/
theorem empty_filter_deletes :
    let f := run step ({ inboundListener with authed := true }, 0) [filterUuid, filterEmpty]
    list f.1 = [] ∧ f.2 = {("Unique-ID".toList, []), ("Unique-ID".toList, "abc".toList)} ∧
      ¬ f.Right := by
  intro f
  have none : list f.1 = [] := by decide +kernel
  refine ⟨none, rfl, fun right => ?_⟩
  have same := right.1
  rw [none] at same
  cases congrArg Multiset.card same

end FreeSwitch
