/-
**When a copy shows what the original shows.**

`switch_event_dup` rebuilds the header list by replaying it. For a reader, who looks up a name and
an index, the copy shows the same as the original exactly when the original is `Copyable`
(`dup_same_readings_iff`).
-/

import FreeSwitch.Event.Replay

namespace FreeSwitch

open CString List Run Stack

def classOf (name : Text) (headers : List Header) : List Header :=
  headers.filter fun h => ciEq h.name name

variable {e : Event} {h : Header} {name : Text}

theorem WellFormed.view_eq (wf : WellFormed e) (name : Text) :
    e.view name = (classOf name e.list).head?.map Header.view := by
  unfold Event.view classOf
  rw [wf.getHeaderPtr, head?_filter]

theorem classOf_congr {other : Text} (same : ciEq other name = true) (l : List Header) :
    classOf other l = classOf name l := by
  have test : (fun b : Header => ciEq b.name other) = fun b => ciEq b.name name := by
    funext b
    rw [ciEq_comm, ciEq_congr same, ciEq_comm]
  rw [classOf, classOf, test]

theorem WellFormed.view_congr (wf : WellFormed e) {a b : Text} (same : ciEq a b = true) :
    e.view a = e.view b := by
  rw [wf.view_eq, wf.view_eq, classOf_congr same]

/-! ### The views of a copy -/

section Views

variable {own name : Text}

theorem addition_view_unlike (plain : '[' ∉ own) (unlike : ciEq own name = false) {e : Event}
    (wf : WellFormed e) (stack : Stack) (data : Text) :
    (eventBaseAddHeader e stack own data).view name = e.view name := by
  refine eventBaseAddHeader_view_other wf stack ?_ data
  rw [cut_of_not_mem plain, ciEq_comm]
  exact unlike

theorem scalar_view (plain : '[' ∉ own) {v : Text} (filled : v ≠ []) (tagless : ¬ arrayTag <:+: v)
    {e : Event} (wf : WellFormed e) :
    (eventBaseAddHeader e bottom own v).view name =
      if ciEq own name then
        (if e.uniqHeaders then none else e.view name).or (some (View.new bottom v))
      else e.view name := by
  split
  next same =>
    have wf' : WellFormed (eventBaseAddHeader e bottom own v) :=
      applyAddition_wellFormed wf ⟨bottom, own, some v⟩
    have view := eventBaseAddHeader_view_bottom plain filled wf
    rw [if_neg (mt (strstr_isSome _ _).mp tagless)] at view
    rw [← wf'.view_congr same, ← wf.view_congr same]
    exact view
  next unlike => exact addition_view_unlike plain (Bool.eq_false_iff.mpr unlike) wf _ _

theorem pushes_view (plain : '[' ∉ own) (texts : List Text) : ∀ (e : Event), WellFormed e →
    (texts.foldl (fun e t => eventAddHeaderString e pushed own (some t)) e).view name =
      if ciEq own name then pushTexts texts (e.view name) else e.view name := by
  induction texts with
  | nil => exact fun e _ => (ite_self _).symm
  | cons t texts ih =>
    intro e wf
    have wf' : WellFormed (eventBaseAddHeader e pushed own t) :=
      applyAddition_wellFormed wf ⟨pushed, own, some t⟩
    refine (ih _ wf').trans ?_
    split
    next same =>
      have view := eventBaseAddHeader_view_pushed plain t e wf
      rw [wf'.view_congr same, wf.view_congr same] at view
      rw [view]
      rfl
    next unlike => exact addition_view_unlike plain (Bool.eq_false_iff.mpr unlike) wf _ _

theorem replayHeader_view (wf : WellFormed e) (good : h.Good)
    (plain : '[' ∉ h.name) (name : Text) :
    (replayHeader e h).view name =
      if ciEq h.name name then replayView e.uniqHeaders (e.view name) h else e.view name := by
  unfold replayHeader replayView
  by_cases array : h.array = []
  · obtain ⟨v, value, filled, tagless⟩ := good.scalar array
    have empty : ¬ h.idx ≠ 0 := by simp [Header.idx, array]
    have own : View.new bottom v = h.view := by
      rw [Header.view, value, array]
      rfl
    rw [if_neg empty, if_neg (not_not.mpr array), value]
    refine (scalar_view plain filled tagless wf).trans ?_
    rw [own]
    cases e.uniqHeaders <;> rfl
  · have filled : h.idx ≠ 0 := fun nothing => array (length_eq_zero_iff.mp nothing)
    rw [if_pos filled, if_pos array]
    exact pushes_view plain h.array e wf

end Views

theorem replayHeader_flags (wf : WellFormed e) (h : Header) :
    WellFormed (replayHeader e h) ∧ (replayHeader e h).uniqHeaders = e.uniqHeaders := by
  rw [replayHeader_eq]
  refine run_keeps_all (P := fun e' => WellFormed e' ∧ e'.uniqHeaders = e.uniqHeaders)
    (fun e' a both => ?_) ⟨wf, rfl⟩ _
  exact ⟨applyAddition_wellFormed both.1 a, (applyAddition_uniqHeaders e' a).trans both.2⟩

theorem foldl_replayHeader_view {headers : List Header} (good : ∀ h ∈ headers, h.Good)
    (plain : ∀ h ∈ headers, '[' ∉ h.name) (name : Text) :
    ∀ {e : Event}, WellFormed e → (headers.foldl replayHeader e).view name =
      (classOf name headers).foldl (replayView e.uniqHeaders) (e.view name) := by
  induction headers with
  | nil => exact fun _ => rfl
  | cons h headers ih =>
    intro e wf
    obtain ⟨wf', uniq⟩ := replayHeader_flags wf h
    have rest := ih (fun b member => good b (mem_cons_of_mem _ member))
      (fun b member => plain b (mem_cons_of_mem _ member)) wf'
    rw [uniq, replayHeader_view wf (good h mem_cons_self) (plain h mem_cons_self)] at rest
    rw [foldl_cons, rest]
    unfold classOf
    rw [filter_cons]
    split <;> rfl

def subclassHeader : Text := "Event-Subclass"

/-- The view of the subclass header of a new event with subclass `s`. -/
def subclassView (s : Text) : Option View :=
  if s = [] then none
  else if (strstr arrayTag s).isSome then pushTexts (arrayPieces s) none
  else some ⟨some s, []⟩

theorem dupStart_view (todup : Event) (name : Text) :
    (dupStart todup).view name =
      if ciEq subclassHeader name then todup.subclassName.bind subclassView else none := by
  show (eventAddSubclass todup.subclassName (eventAlloc .clone)).view name = _
  have wf : ∀ s, WellFormed { eventAlloc .clone with subclassName := s } := fun s =>
    ⟨Chain.empty_linked, fun _ member => absurd member not_mem_nil⟩
  cases todup.subclassName with
  | none => exact (ite_self _).symm
  | some s =>
    let e : Event := { eventAlloc .clone with subclassName := some s }
    have plain : '[' ∉ subclassHeader := by decide
    show (eventBaseAddHeader e bottom subclassHeader s).view name = _
    split
    next same =>
      have wf' : WellFormed (eventBaseAddHeader e bottom subclassHeader s) :=
        applyAddition_wellFormed (wf (some s)) ⟨bottom, subclassHeader, some s⟩
      rw [← wf'.view_congr same, Option.bind_some, subclassView]
      split
      next empty =>
        rw [empty, eventBaseAddHeader_new (fun _ => rfl), cut_of_not_mem plain, addNew, if_pos rfl]
        exact congrArg (Option.map Header.view) (eventGetHeaderPtr_delete _ _)
      next filled =>
        exact eventBaseAddHeader_view_bottom plain filled (wf (some s))
    next unlike =>
      refine eventBaseAddHeader_view_other (wf (some s)) bottom ?_ s
      rw [cut_of_not_mem plain, ciEq_comm]
      exact Bool.eq_false_iff.mpr unlike

theorem eventDup_view (wf : WellFormed e) (plain : ∀ h ∈ e.list, '[' ∉ h.name)
    (name : Text) : (eventDup e).view name =
      (classOf name (e.list.filter fun h => !dupSkips e h)).foldl (replayView e.uniqHeaders)
        (if ciEq subclassHeader name then e.subclassName.bind subclassView else none) := by
  have replayed : (eventDup e).view name =
      ((e.list.filter fun h => !dupSkips e h).foldl replayHeader (dupStart e)).view name := by
    rw [eventDup_eq, foldl_replayHeader]
    rfl
  rw [replayed, foldl_replayHeader_view
    (fun h member => wf.good h (mem_of_mem_filter member))
    (fun h member => plain h (mem_of_mem_filter member)) name (dupStart_wellFormed e),
    dupStart_view]
  rfl

/-! ### Readings -/

def SameReadings (a b : Event) : Prop :=
  (∀ (name : Text) (i : Int), -1 ≤ i → eventGetHeaderIdx a name i = eventGetHeaderIdx b name i) ∧
    a.body = b.body ∧ a.subclassName = b.subclassName

theorem reading_value (header : name ≠ "_body") (e : Event) :
    eventGetHeaderIdx e name (-1) = (e.view name).bind View.value := by
  rw [eventGetHeaderIdx_eq]
  cases e.view name with
  | none => exact if_neg header
  | some v => rfl

theorem reading_element (header : name ≠ "_body") (e : Event) (j : Nat) :
    eventGetHeaderIdx e name j = (e.view name).bind fun v => v.array[j]? := by
  rw [eventGetHeaderIdx_eq]
  cases e.view name with
  | none => exact if_neg header
  | some v => exact if_pos (by omega)

theorem view_eq_of_readings {a b : Event} (wfa : WellFormed a) (wfb : WellFormed b)
    (header : name ≠ "_body")
    (same : ∀ i : Int, -1 ≤ i → eventGetHeaderIdx a name i = eventGetHeaderIdx b name i) :
    a.view name = b.view name := by
  have valued : ∀ {e : Event}, WellFormed e → ∀ v, e.view name = some v → v.value ≠ none := by
    intro e wf v member
    obtain ⟨h, found, rfl⟩ := Option.map_eq_some_iff.mp member
    obtain ⟨t, value⟩ := (wf.good h (mem_of_find?_eq_some found)).valued
    exact fun nothing => by rw [Header.view, value] at nothing; cases nothing
  have values : (a.view name).bind View.value = (b.view name).bind View.value := by
    rw [← reading_value header, ← reading_value header]
    exact same (-1) le_rfl
  have elements : ∀ j : Nat, ((a.view name).bind fun v => v.array[j]?) =
      (b.view name).bind fun v => v.array[j]? := by
    intro j
    rw [← reading_element header, ← reading_element header]
    exact same j (by omega)
  cases seenA : a.view name with
  | none =>
    cases seenB : b.view name with
    | none => rfl
    | some w =>
      rw [seenA, seenB] at values
      exact absurd values.symm (valued wfb w seenB)
  | some v =>
    rw [seenA] at values elements
    cases seenB : b.view name with
    | none =>
      rw [seenB] at values
      exact absurd values (valued wfa v seenA)
    | some w =>
      rw [seenB] at values elements
      have array : v.array = w.array := ext_getElem? elements
      have value : v.value = w.value := values
      rw [Option.some_inj]
      cases v
      cases w
      exact congr (congrArg View.mk value) array

theorem sameReadings_iff {a b : Event} (wfa : WellFormed a) (wfb : WellFormed b) :
    SameReadings a b ↔
      (∀ name, a.view name = b.view name) ∧ a.body = b.body ∧ a.subclassName = b.subclassName := by
  constructor
  · rintro ⟨readings, body, subclass⟩
    refine ⟨fun name => ?_, body, subclass⟩
    by_cases header : name = "_body"
    · -- Another spelling of `_body` reads the header and never the body.
      have spelled : ciEq "_BODY" name = true := by
        rw [header]
        decide
      rw [← wfa.view_congr spelled, ← wfb.view_congr spelled]
      exact view_eq_of_readings wfa wfb (by decide) (readings _)
    · exact view_eq_of_readings wfa wfb header (readings name)
  · rintro ⟨views, body, subclass⟩
    refine ⟨fun name i _ => ?_, body, subclass⟩
    rw [eventGetHeaderIdx_eq, eventGetHeaderIdx_eq, views, body]

/-! ### The other parts of a copy -/

theorem applyAdditions_body {adds : List Addition} (plain : ∀ a ∈ adds, '[' ∉ a.name) (e : Event) :
    (applyAdditions e adds).body.isSome ↔
      e.body.isSome ∨ ∃ a ∈ adds, a.name = "_body" ∧ a.data.isSome := by
  induction adds generalizing e with
  | nil => simp
  | cons a adds ih =>
    show (applyAdditions (applyAddition e a) adds).body.isSome ↔ _
    rw [ih fun b member => plain b (mem_cons_of_mem _ member)]
    have first : (applyAddition e a).body.isSome ↔
        e.body.isSome ∨ a.name = "_body" ∧ a.data.isSome := by
      have aPlain := plain a mem_cons_self
      obtain ⟨stack, name, data⟩ := a
      cases data with
      | none => simp [applyAddition, eventAddHeaderString]
      | some data =>
        show (eventBaseAddHeader e stack name data).body.isSome ↔ _
        by_cases isBody : name = "_body"
        · subst isBody
          obtain ⟨b, set, -⟩ := eventBaseAddHeader_shortBody data e stack
          exact iff_of_true (by rw [set]; rfl) (Or.inr ⟨rfl, rfl⟩)
        · rw [eventBaseAddHeader_body_other aPlain isBody data e stack]
          exact ⟨Or.inl, fun either => either.resolve_right fun body => isBody body.1⟩
    rw [first, or_assoc]
    simp only [mem_cons, exists_eq_or_imp]

theorem replayAdds_name {a : Addition} (made : a ∈ replayAdds h) : a.name = h.name := by
  unfold replayAdds at made
  split at made
  · obtain ⟨t, -, rfl⟩ := mem_map.mp made
    rfl
  · rw [mem_singleton.mp made]

theorem Header.Good.replayAdds_full (good : h.Good) :
    ∃ a ∈ replayAdds h, a.data.isSome := by
  unfold replayAdds
  split
  next filled =>
    obtain ⟨t, texts, shape⟩ := exists_cons_of_length_pos (Nat.pos_of_ne_zero filled)
    exact ⟨_, mem_map_of_mem (by rw [shape]; exact mem_cons_self), rfl⟩
  next =>
    obtain ⟨v, value⟩ := good.valued
    exact ⟨_, mem_singleton_self _, by rw [value]; rfl⟩

theorem dupStart_body (e : Event) : (dupStart e).body = none := by
  show (eventAddSubclass e.subclassName (eventAlloc .clone)).body = none
  cases e.subclassName with
  | none => rfl
  | some s => exact eventBaseAddHeader_body_other (by decide) (by decide) s _ _

theorem dupAdds_body (wf : WellFormed e) (plain : ∀ h ∈ e.list, '[' ∉ h.name) :
    (applyAdditions (dupStart e) (dupAdds e)).body.isSome ↔
      ∃ h ∈ e.list, h.name = "_body" := by
  have plainAdds : ∀ a ∈ dupAdds e, '[' ∉ a.name := by
    intro a member
    obtain ⟨h, inside, made⟩ := mem_flatMap.mp member
    rw [replayAdds_name made]
    exact plain h (mem_of_mem_filter inside)
  rw [applyAdditions_body plainAdds, dupStart_body]
  simp only [Option.isSome_none, Bool.false_eq_true, false_or]
  constructor
  · rintro ⟨a, member, isBody, -⟩
    obtain ⟨h, inside, made⟩ := mem_flatMap.mp member
    exact ⟨h, mem_of_mem_filter inside, (replayAdds_name made).symm.trans isBody⟩
  · rintro ⟨h, inside, isBody⟩
    have kept : h ∈ e.list.filter fun h => !dupSkips e h := by
      refine mem_filter.mpr ⟨inside, ?_⟩
      rw [dupSkips, isBody]
      simp
    obtain ⟨a, made, full⟩ := (wf.good h inside).replayAdds_full
    exact ⟨a, mem_flatMap.mpr ⟨h, kept, made⟩, (replayAdds_name made).trans isBody, full⟩

theorem eventDup_body (wf : WellFormed e) (plain : ∀ h ∈ e.list, '[' ∉ h.name) :
    (eventDup e).body = e.body ↔ (e.body = none → ∀ h ∈ e.list, h.name ≠ "_body") := by
  rw [eventDup_eq]
  cases body : e.body with
  | some b => simp
  | none =>
    rw [Option.none_or, ← Option.not_isSome_iff_eq_none, dupAdds_body wf plain]
    simp

theorem eventDup_subclassName (e : Event) : (eventDup e).subclassName = e.subclassName := by
  have kept : ∀ (adds : List Addition) (e : Event),
      (applyAdditions e adds).subclassName = e.subclassName := fun adds e =>
    run_keeps_all (P := fun e' => e'.subclassName = e.subclassName)
      (fun e' a same => (applyAddition_field (f := Event.subclassName) (fun _ _ => rfl)
        (fun _ _ => rfl) e' a).trans same) rfl adds
  rw [eventDup_eq]
  refine (kept _ _).trans ?_
  show (eventAddSubclass e.subclassName (eventAlloc .clone)).subclassName = e.subclassName
  cases e.subclassName with
  | none => rfl
  | some s => exact kept [⟨bottom, subclassHeader, some s⟩] { eventAlloc .clone with
      subclassName := some s }

theorem eventDup_plain (e : Event) : ∀ n ∈ (eventDup e).names, '[' ∉ n := by
  have kept : ∀ (adds : List Addition) (e : Event), WellFormed e → (∀ n ∈ e.names, '[' ∉ n) →
      ∀ n ∈ (applyAdditions e adds).names, '[' ∉ n := by
    intro adds e wf plain
    refine (run_keeps_all (P := fun e => WellFormed e ∧ ∀ n ∈ e.names, '[' ∉ n)
      (fun e' a both => ⟨applyAddition_wellFormed both.1 a, fun n member => ?_⟩) ⟨wf, plain⟩ adds).2
    rcases applyAddition_names both.1 a n member with old | rfl
    · exact both.2 n old
    · exact cut_not_mem _ _
  have start : ∀ n ∈ (dupStart e).names, '[' ∉ n := by
    show ∀ n ∈ (eventAddSubclass e.subclassName (eventAlloc .clone)).names, '[' ∉ n
    cases e.subclassName with
    | none => exact fun n member => absurd member not_mem_nil
    | some s =>
      exact kept [⟨bottom, subclassHeader, some s⟩]
        { eventAlloc .clone with subclassName := some s }
        ⟨Chain.empty_linked, fun _ member => absurd member not_mem_nil⟩
        fun n member => absurd member not_mem_nil
  have all := kept (dupAdds e) (dupStart e) (dupStart_wellFormed e) start
  rw [eventDup_eq]
  exact all

/-! ### The exact condition -/

def otherSpellings (e : Event) : List Header := e.list.filter fun h => !(h.name == subclassHeader)

/-- **An event whose copy shows the same.** -/
structure Copyable (e : Event) : Prop where
  plain : ∀ h ∈ e.list, '[' ∉ h.name
  /-- Without a body, no header is called `_body`. -/
  bodied : e.body = none → ∀ h ∈ e.list, h.name ≠ "_body"
  faithful : ∀ h rest, classOf h.name e.list = h :: rest →
    ¬ (e.subclassName.isSome ∧ ciEq subclassHeader h.name = true) → Faithful e.uniqHeaders h rest
  /-- Where there is a subclass, the headers that spell `Event-Subclass` in another case, behind the
  header made of it, leave what the event shows. -/
  subclass : ∀ s, e.subclassName = some s → Leaves e.uniqHeaders (subclassView s)
    (classOf subclassHeader (otherSpellings e)) (e.view subclassHeader)

theorem mem_classOf {headers : List Header} :
    h ∈ classOf name headers ↔ h ∈ headers ∧ ciEq h.name name = true := mem_filter

theorem eventDup_view_ordinary (wf : WellFormed e)
    (plain : ∀ h ∈ e.list, '[' ∉ h.name) {name : Text}
    (ordinary : ¬ (e.subclassName.isSome ∧ ciEq subclassHeader name = true)) :
    (eventDup e).view name =
      (classOf name e.list).foldl (replayView e.uniqHeaders) none := by
  have start : (if ciEq subclassHeader name = true then e.subclassName.bind subclassView
      else none) = none := by
    split
    next same =>
      cases subclass : e.subclassName with
      | none => rfl
      | some s => exact absurd ⟨by rw [subclass]; rfl, same⟩ ordinary
    · rfl
  have whole : classOf name (e.list.filter fun h => !dupSkips e h) = classOf name e.list := by
    unfold classOf
    rw [filter_filter]
    refine filter_congr fun h _ => ?_
    cases same : ciEq h.name name with
    | false => rfl
    | true =>
      cases skips : dupSkips e h with
      | false => rfl
      | true =>
        simp only [dupSkips, Bool.and_eq_true, beq_iff_eq] at skips
        exact absurd ⟨skips.1, (show subclassHeader = h.name from skips.2.symm) ▸ same⟩ ordinary
  rw [eventDup_view wf plain, start, whole]

theorem eventDup_view_subclass (wf : WellFormed e)
    (plain : ∀ h ∈ e.list, '[' ∉ h.name) {s : Text} (subclass : e.subclassName = some s) :
    (eventDup e).view subclassHeader =
      (classOf subclassHeader (otherSpellings e)).foldl (replayView e.uniqHeaders)
        (subclassView s) := by
  have kept : (e.list.filter fun h => !dupSkips e h) = otherSpellings e := by
    unfold otherSpellings dupSkips
    rw [subclass]
    rfl
  rw [eventDup_view wf plain, kept, ciEq_refl, if_pos rfl, subclass]
  rfl

theorem plain_of_views (wf : WellFormed e) (wf' : WellFormed (eventDup e))
    (views : ∀ name, (eventDup e).view name = e.view name) : ∀ h ∈ e.list, '[' ∉ h.name := by
  intro h member bracket
  have shown : (eventDup e).view h.name ≠ none := by
    rw [views, wf.view_eq, Ne, Option.map_eq_none_iff, head?_eq_none_iff]
    exact ne_nil_of_mem (mem_classOf.mpr ⟨member, ciEq_refl _⟩)
  rw [wf'.view_eq, Ne, Option.map_eq_none_iff, head?_eq_none_iff] at shown
  obtain ⟨copy, inside⟩ := exists_mem_of_ne_nil _ shown
  obtain ⟨inList, same⟩ := mem_classOf.mp inside
  refine eventDup_plain e copy.name (mem_map_of_mem inList) ?_
  exact bracket_mem_of_ciEq (ciEq_comm copy.name h.name ▸ same) bracket

section Class

variable {e : Event} {name : Text} {h : Header} {rest : List Header}

theorem WellFormed.view_of_class (wf : WellFormed e) (shape : classOf name e.list = h :: rest) :
    e.view name = some h.view := by
  rw [wf.view_eq, shape]
  rfl

theorem WellFormed.good_of_class (wf : WellFormed e) (shape : classOf name e.list = h :: rest) :
    ∀ b ∈ h :: rest, b.Good :=
  fun b member => wf.good b (mem_classOf.mp (shape ▸ member)).1

theorem Copyable.view_ordinary (copyable : Copyable e) (wf : WellFormed e)
    (ordinary : ¬ (e.subclassName.isSome ∧ ciEq subclassHeader name = true)) :
    (eventDup e).view name = e.view name := by
  rw [eventDup_view_ordinary wf copyable.plain ordinary]
  cases shape : classOf name e.list with
  | nil =>
    rw [wf.view_eq, shape]
    rfl
  | cons h rest =>
    have same : ciEq h.name name = true :=
      (mem_classOf.mp (shape ▸ mem_cons_self : h ∈ classOf name e.list)).2
    have named : classOf h.name e.list = h :: rest := (classOf_congr same e.list).trans shape
    have ordinary' : ¬ (e.subclassName.isSome ∧ ciEq subclassHeader h.name = true) :=
      fun both => ordinary ⟨both.1, ciEq_trans both.2 same⟩
    have faithful := copyable.faithful h rest named ordinary'
    rw [(replay_class_iff (wf.good_of_class shape)).mpr faithful, wf.view_of_class shape]

end Class

/-- **The copy of an event shows what the event shows exactly when the event is copyable.** -/
theorem dup_same_readings_iff {e : Event} (reached : Reached e) :
    SameReadings (eventDup e) e ↔ Copyable e := by
  have wf : WellFormed e := reached.wellFormed fun _ _ _ => trivial
  have reached' : Reached (eventDup e) := .dup e reached (along_of_forall (fun _ _ _ => trivial) _)
  have wf' : WellFormed (eventDup e) := reached'.wellFormed fun _ _ _ => trivial
  rw [sameReadings_iff wf' wf]
  constructor
  · rintro ⟨views, body, -⟩
    have plain := plain_of_views wf wf' views
    refine ⟨plain, (eventDup_body wf plain).mp body, fun h rest shape ordinary => ?_,
      fun s set => ?_⟩
    · have shown := views h.name
      rw [eventDup_view_ordinary wf plain ordinary, wf.view_of_class shape, shape] at shown
      exact (replay_class_iff (wf.good_of_class shape)).mp shown
    · rw [← replay_leaves_iff, ← eventDup_view_subclass wf plain set, views]
  · intro copyable
    have plain := copyable.plain
    refine ⟨fun name => ?_, (eventDup_body wf plain).mpr copyable.bodied, eventDup_subclassName e⟩
    by_cases special : e.subclassName.isSome ∧ ciEq subclassHeader name = true
    · obtain ⟨s, set⟩ := Option.isSome_iff_exists.mp special.1
      rw [← wf'.view_congr special.2, ← wf.view_congr special.2,
        eventDup_view_subclass wf plain set, replay_leaves_iff.mpr (copyable.subclass s set)]
    · exact copyable.view_ordinary wf special

/-- The event with one header `a` that holds `x`. -/
def oneHeader : Event := applyAddition (eventAlloc .clone) ⟨bottom, ['a'], some ['x']⟩

theorem oneHeader_reached : Reached oneHeader :=
  .add _ _ (.create default .clone none _ rfl) trivial

/-- The copy of an array. -/
theorem dup_same_readings_pairEvent : SameReadings (eventDup pairEvent) pairEvent := by
  have unset : pairEvent.subclassName = none := by decide +kernel
  refine (dup_same_readings_iff (pairEvent_reachedBy fun _ _ _ => trivial)).mpr ⟨?_, ?_, ?_, ?_⟩
  · rw [pairEvent_list]
    decide
  · intro _
    rw [pairEvent_list]
    decide
  · intro h rest shape _
    have member : h ∈ classOf h.name pairEvent.list := shape ▸ mem_cons_self
    obtain rfl := mem_singleton.mp (pairEvent_list ▸ (mem_classOf.mp member).1)
    have several : pairEvent.uniqHeaders = false := by decide +kernel
    have tail : rest = [] := by
      rw [pairEvent_list, classOf] at shape
      exact (List.cons.inj shape).2.symm
    rw [several, tail]
    exact ⟨fun _ => ⟨by decide, ['x'], [['y']], rfl, by decide, by decide⟩, nofun⟩
  · intro s set
    rw [unset] at set
    cases set

/-- **A copy can show less**: `a = x`, then `a[2] = y`, makes the array of an empty text, an empty
text and `y`; the copy drops the empty texts in front and has the one element `y`. -/
theorem dup_drops_empty_elements :
    let e := applyAddition oneHeader ⟨bottom, "a[2]".toList, some ['y']⟩
    Reached e ∧ eventGetHeaderIdx e ['a'] 2 = some ['y'] ∧
      eventGetHeaderIdx (eventDup e) ['a'] 2 = none ∧
      eventGetHeader e ['a'] = some "ARRAY::|:|:y".toList ∧
      eventGetHeader (eventDup e) ['a'] = some ['y'] :=
  ⟨.add _ _ oneHeader_reached trivial, by decide +kernel⟩

end FreeSwitch
