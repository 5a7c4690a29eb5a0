/-
**What the header functions can do to an event.**

`HeaderStep` lists the changes `switch_event_base_add_header` is made of: write the body, delete a
name, grow an array, push on a header, link a new header. `eventBaseAddHeader_steps` says that an
addition is a sequence of these, unless it overwrites an array element in place (`overwritten`),
and `eventBaseAddHeader_overwrite` says what it is then. Every invariant of the header list is
proved on the steps and lifted with `HeaderStep.keeps`.

`WellFormed` is the invariant that holds of every event the code builds: the tail pointer agrees
with the list, hashes belong to their names, and a scalar is a non-empty text without `ARRAY::`.
-/

import FreeSwitch.Event.Copy

namespace FreeSwitch

open CString Chain List Relation

/-! ### The branches of an addition -/

variable (e : Event)

@[simp] theorem withBody_headers (headerName data : Text) :
    (withBody e headerName data).headers = e.headers := by
  unfold withBody
  split <;> rfl

@[simp] theorem withBody_list (headerName data : Text) :
    (withBody e headerName data).list = e.list := by
  unfold Event.list
  rw [withBody_headers]

@[simp] theorem withBody_uniqHeaders (headerName data : Text) :
    (withBody e headerName data).uniqHeaders = e.uniqHeaders := by
  unfold withBody
  split <;> rfl

@[simp] theorem eventGetHeaderPtr_withBody (headerName data name : Text) :
    eventGetHeaderPtr (withBody e headerName data) name = eventGetHeaderPtr e name := by
  simp [eventGetHeaderPtr]

theorem withBody_of_indexed {headerName text : Text} (indexed : (cut '[' headerName).2 = some text)
    (e : Event) (data : Text) : withBody e headerName data = e := by
  unfold withBody
  rw [if_neg]
  rintro rfl
  simp [cut] at indexed

variable (stack : Stack)

def freshHeader (name data : Text) : Header :=
  if stack.pushes then pushOnto stack data (newHeader name)
  else { newHeader name with value := some data }

def addNew (name data : Text) : Event :=
  if data = [] then eventDelHeader e name
  else
    let e := if e.uniqHeaders then eventDelHeader e name else e
    if (strstr arrayTag data).isSome then
      (arrayPieces data).foldl (fun e piece => eventBaseAddHeader e Stack.pushed name piece) e
    else linkHeader e stack (freshHeader stack name data)

def indexInRange (text : Text) : Prop := atoi text > -1 ∧ atoi text ≤ 4000

instance (text : Text) : Decidable (indexInRange text) := instDecidableAnd

theorem eventBaseAddHeader_at {e : Event} {headerName text : Text} {h : Header}
    (indexed : (cut '[' headerName).2 = some text)
    (found : eventGetHeaderPtr e (cut '[' headerName).1 = some h) (stack : Stack) (data : Text) :
    eventBaseAddHeader e stack headerName data =
      if indexInRange text then
        { e with headers := e.headers.modify (Header.hasName (cut '[' headerName).1)
                  (addIndexed (atoi text).toNat data) }
      else e := by
  rw [eventBaseAddHeader]
  simp only [withBody_of_indexed indexed, indexed, Option.isSome_some, Bool.true_or, if_true, found]
  rfl

theorem eventBaseAddHeader_push {e : Event} {headerName : Text} {h : Header} {stack : Stack}
    (plain : (cut '[' headerName).2 = none) (pushes : stack.pushes = true)
    (found : eventGetHeaderPtr e (cut '[' headerName).1 = some h) (data : Text) :
    eventBaseAddHeader e stack headerName data =
      { withBody e headerName data with
        headers := e.headers.modify (Header.hasName (cut '[' headerName).1)
          (pushOnto stack data) } := by
  rw [eventBaseAddHeader]
  simp only [plain, pushes, Bool.or_true, if_true, eventGetHeaderPtr_withBody, found,
    withBody_headers]

theorem eventBaseAddHeader_new {e : Event} {headerName : Text} {stack : Stack}
    (absent : ((cut '[' headerName).2.isSome || stack.pushes) = true →
      eventGetHeaderPtr e (cut '[' headerName).1 = none) (data : Text) :
    eventBaseAddHeader e stack headerName data =
      addNew (withBody e headerName data) stack (cut '[' headerName).1 data := by
  have nothing : (if ((cut '[' headerName).2.isSome || stack.pushes) = true then
      eventGetHeaderPtr e (cut '[' headerName).1 else none) = none := by
    split
    next looks =>
      exact absent looks
    · rfl
  rw [eventBaseAddHeader]
  simp only [eventGetHeaderPtr_withBody, nothing, addNew, freshHeader]
  split
  · rfl
  · split
    · exact foldl_attach ..
    · split <;> rfl

/-! ### Overwriting an element -/

/-- The header and the index that an addition to `headerName` overwrites. -/
def overwritten (headerName : Text) : Option (Header × Nat) :=
  match (cut '[' headerName).2, eventGetHeaderPtr e (cut '[' headerName).1 with
  | some text, some h =>
    if indexInRange text ∧ (atoi text).toNat < h.idx then some (h, (atoi text).toNat) else none
  | _, _ => none

variable {e e' : Event} {h : Header} {index : Nat} {name : Text}

theorem overwritten_eq_some {headerName : Text}
    (written : overwritten e headerName = some (h, index)) :
    ∃ text, (cut '[' headerName).2 = some text ∧ indexInRange text ∧ (atoi text).toNat = index ∧
      eventGetHeaderPtr e (cut '[' headerName).1 = some h ∧ index < h.idx := by
  unfold overwritten at written
  split at written
  next text found indexed pointed =>
    split at written
    next hit =>
      cases written
      exact ⟨text, indexed, hit.1, rfl, pointed, hit.2⟩
    · cases written
  · cases written

theorem overwritten_plain {headerName : Text} (plain : (cut '[' headerName).2 = none) (e : Event) :
    overwritten e headerName = none := by
  unfold overwritten
  rw [plain]

theorem eventBaseAddHeader_overwrite {headerName : Text}
    (written : overwritten e headerName = some (h, index)) (stack : Stack) (data : Text) :
    eventBaseAddHeader e stack headerName data =
      { e with headers := e.headers.modify (Header.hasName (cut '[' headerName).1)
                (addIndexed index data) } := by
  obtain ⟨text, indexed, range, rfl, found, -⟩ := overwritten_eq_some written
  exact (eventBaseAddHeader_at indexed found stack data).trans (if_pos range)

/-! ### The steps of an addition -/

/-- One change of the header list, all of it to headers called `name`. -/
inductive HeaderStep (name : Text) : Event → Event → Prop
  | setBody (e : Event) (body : Text) : HeaderStep name e { e with body := some body }
  | delete (e : Event) : HeaderStep name e (eventDelHeader e name)
  | grow (e : Event) (index : Nat) (data : Text) (h : Header) :
      eventGetHeaderPtr e name = some h → h.idx ≤ index →
      HeaderStep name e
        { e with headers := e.headers.modify (Header.hasName name) (addIndexed index data) }
  | push (e : Event) (stack : Stack) (data : Text) (h : Header) :
      eventGetHeaderPtr e name = some h →
      HeaderStep name e
        { e with headers := e.headers.modify (Header.hasName name) (pushOnto stack data) }
  | link (e : Event) (stack : Stack) (data : Text) :
      (e.uniqHeaders = true ∨ stack.pushes = true → eventGetHeaderPtr e name = none) →
      '[' ∉ name → data ≠ [] → ¬ arrayTag <:+: data →
      HeaderStep name e (linkHeader e stack (freshHeader stack name data))

abbrev HeaderSteps (name : Text) : Event → Event → Prop := ReflTransGen (HeaderStep name)

theorem HeaderSteps.keeps {P : Event → Prop} (step : ∀ e e', HeaderStep name e e' → P e → P e')
    (steps : HeaderSteps name e e') (start : P e) : P e' := by
  induction steps with
  | refl => exact start
  | tail _ last ih => exact step _ _ last ih

theorem eventGetHeaderPtr_delete (e : Event) (name : Text) :
    eventGetHeaderPtr (eventDelHeader e name) name = none := by
  unfold eventGetHeaderPtr
  rw [find?_eq_none]
  intro h member
  simp only [Event.list, eventDelHeader, eventDelHeaderVal, contents_delete,
    mem_filter, deletes] at member
  simpa using member.2

theorem withBody_steps (name : Text) (e : Event) (headerName data : Text) :
    HeaderSteps name e (withBody e headerName data) := by
  unfold withBody
  split
  · exact .single (.setBody e data)
  · exact .refl

theorem foldl_steps {f : Event → Text → Event} (pieces : List Text)
    (each : ∀ piece ∈ pieces, ∀ e, HeaderSteps name e (f e piece)) (e : Event) :
    HeaderSteps name e (pieces.foldl f e) := by
  induction pieces generalizing e with
  | nil => exact .refl
  | cons piece pieces ih =>
    refine (each piece mem_cons_self e).trans (ih (fun other member => ?_) _)
    exact each other (mem_cons_of_mem _ member)

theorem addNew_steps {data : Text} (plain : '[' ∉ name)
    (shorter : ∀ piece : Text, piece.length < data.length → ∀ e,
      HeaderSteps name e (eventBaseAddHeader e Stack.pushed name piece))
    {e : Event} {stack : Stack}
    (absent : stack.pushes = true → eventGetHeaderPtr e name = none) :
    HeaderSteps name e (addNew e stack name data) := by
  unfold addNew
  split
  · exact .single (.delete e)
  next filled =>
    -- With unique headers the name is deleted first.
    obtain ⟨cleared, shape, first, free⟩ : ∃ cleared,
        (if e.uniqHeaders = true then eventDelHeader e name else e) = cleared ∧
        HeaderSteps name e cleared ∧ (cleared.uniqHeaders = true ∨ stack.pushes = true →
          eventGetHeaderPtr cleared name = none) := by
      refine ⟨_, rfl, ?_, ?_⟩
      · split
        · exact .single (.delete e)
        · exact .refl
      · split
        · exact fun _ => eventGetHeaderPtr_delete e name
        next several =>
          exact fun either => either.elim (fun uniq => absurd uniq several) absent
    simp only [shape]
    refine first.trans ?_
    split
    · exact foldl_steps _ (fun piece member => shorter piece (arrayPieces_length member)) _
    next tagless =>
      rw [strstr_isSome] at tagless
      exact .single (.link cleared stack data free plain filled tagless)

theorem eventBaseAddHeader_steps (data : Text) : ∀ (e : Event) (stack : Stack) (headerName : Text),
    overwritten e headerName = none →
      HeaderSteps (cut '[' headerName).1 e (eventBaseAddHeader e stack headerName data) := by
  -- The pieces of an array text are shorter than the text.
  induction data using (measure List.length).wf.induction with
  | _ data ih =>
    intro e stack headerName keeps
    have shorter : ∀ piece : Text, piece.length < data.length → ∀ e,
        HeaderSteps (cut '[' headerName).1 e
          (eventBaseAddHeader e Stack.pushed (cut '[' headerName).1 piece) := by
      intro piece less e
      have plain := cut_of_not_mem (cut_not_mem '[' headerName)
      have steps := ih piece less e Stack.pushed (cut '[' headerName).1
        (overwritten_plain (congrArg Prod.snd plain) e)
      rwa [plain] at steps
    have fresh : (((cut '[' headerName).2.isSome || stack.pushes) = true →
        eventGetHeaderPtr e (cut '[' headerName).1 = none) →
        HeaderSteps (cut '[' headerName).1 e (eventBaseAddHeader e stack headerName data) := by
      intro absent
      rw [eventBaseAddHeader_new absent]
      refine (withBody_steps _ e headerName data).trans (addNew_steps (cut_not_mem _ _) shorter ?_)
      intro pushes
      rw [eventGetHeaderPtr_withBody]
      exact absent (by rw [pushes, Bool.or_true])
    cases found : eventGetHeaderPtr e (cut '[' headerName).1 with
    | none => exact fresh fun _ => found
    | some h =>
      cases indexed : (cut '[' headerName).2 with
      | some text =>
        by_cases range : indexInRange text
        · rw [eventBaseAddHeader_at indexed found, if_pos range]
          refine .single (.grow e _ data h found ?_)
          by_contra below
          unfold overwritten at keeps
          simp only [indexed, found] at keeps
          rw [if_pos ⟨range, by omega⟩] at keeps
          cases keeps
        · rw [eventBaseAddHeader_at indexed found, if_neg range]
      | none =>
        by_cases pushes : stack.pushes = true
        · rw [eventBaseAddHeader_push indexed pushes found]
          refine (withBody_steps _ e headerName data).tail ?_
          rw [← withBody_headers e headerName data]
          exact .push _ stack data h (by rw [eventGetHeaderPtr_withBody, found])
        · refine fresh fun looks => ?_
          rw [indexed, Option.isSome_none, Bool.false_or] at looks
          exact absurd looks pushes

/-! ### Headers one by one -/

theorem redraw_eq (h : Header) : redraw h = { h with value := (redraw h).value } := by
  unfold redraw
  split <;> rfl

@[simp] theorem redraw_name (h : Header) : (redraw h).name = h.name := by rw [redraw_eq]

@[simp] theorem redraw_hash (h : Header) : (redraw h).hash = h.hash := by rw [redraw_eq]

theorem redraw_value (filled : h.array ≠ []) :
    (redraw h).value = some (render h.array) := by
  unfold redraw
  split
  next nothing =>
    exact absurd nothing filled
  · rfl

def promotedArray (h : Header) : List Text :=
  match h.value, h.array with
  | some v, [] => [v]
  | _, array => array

def pushedArray (data : Text) (h : Header) : List Text :=
  if stack.push then promotedArray h ++ [data] else data :: promotedArray h

theorem pushedArray_ne_nil (data : Text) (h : Header) : pushedArray stack data h ≠ [] := by
  unfold pushedArray
  split <;> simp

theorem pushOnto_eq (data : Text) (h : Header) :
    pushOnto stack data h =
      { h with value := some (render (pushedArray stack data h)),
               array := pushedArray stack data h } := by
  obtain ⟨name, value, array, hash⟩ := h
  have filled := pushedArray_ne_nil stack data ⟨name, value, array, hash⟩
  unfold pushOnto
  rw [redraw_eq, redraw_value]
  · cases value <;> cases array <;> rfl
  · cases value <;> cases array <;> exact filled

def grownArray (index : Nat) (data : Text) (h : Header) : List Text :=
  h.array ++ List.replicate (index - h.idx) [] ++ [data]

theorem addIndexed_grow (above : h.idx ≤ index) (data : Text) :
    addIndexed index data h =
      { h with value := some (render (grownArray index data h)),
               array := grownArray index data h } := by
  unfold addIndexed
  rw [if_neg (by omega), redraw_eq, redraw_value (by simp)]
  rfl

theorem addIndexed_overwrite (below : index < h.idx) (data : Text) :
    addIndexed index data h = { h with array := h.array.set index data } := if_pos below

def linkedHeader (name data : Text) : Header :=
  ⟨name, some data, if stack.pushes then [data] else [], ciHash name⟩

theorem freshHeader_eq (name data : Text) :
    freshHeader stack name data = { linkedHeader stack name data with hash := 0 } := by
  unfold freshHeader linkedHeader
  split
  · rw [pushOnto_eq]
    simp [pushedArray, promotedArray, newHeader, render]
  · rfl

theorem Header.hasName_eq (hashed : h.hash = ciHash h.name) (name : Text) :
    h.hasName name = ciEq h.name name := by
  unfold Header.hasName
  cases same : ciEq h.name name with
  | false => rw [Bool.and_false]
  | true => rw [hashed, ciHash_congr same, beq_self_eq_true, Bool.or_true, Bool.and_self]

theorem linkHeader_list (linked : e.headers.Linked) (stack : Stack) (name data : Text) :
    (linkHeader e stack (freshHeader stack name data)).list =
      if stack.top then linkedHeader stack name data :: e.list
      else e.list ++ [linkedHeader stack name data] := by
  rw [freshHeader_eq]
  unfold linkHeader Event.list
  split
  · rfl
  · exact contents_pushBottom linked _

theorem eventBaseAddHeader_list_bottom (linked : e.headers.Linked)
    (several : e.uniqHeaders = false) {name data : Text} (plain : '[' ∉ name) (filled : data ≠ [])
    (tagless : ¬ arrayTag <:+: data) :
    (eventBaseAddHeader e Stack.bottom name data).list =
      e.list ++ [linkedHeader Stack.bottom name data] := by
  have unsplit : ¬ (strstr arrayTag data).isSome = true := mt (strstr_isSome _ _).mp tagless
  rw [eventBaseAddHeader_new, cut_of_not_mem plain]
  · unfold addNew
    simp only [if_neg filled, withBody_uniqHeaders, several, Bool.false_eq_true, if_false,
      if_neg unsplit]
    rw [linkHeader_list (by rw [withBody_headers]; exact linked), if_neg (by decide), withBody_list]
  · rw [cut_of_not_mem plain]
    exact fun looks => Bool.noConfusion looks

theorem HeaderStep.linked (step : HeaderStep name e e') (linked : e.headers.Linked) :
    e'.headers.Linked := by
  cases step with
  | setBody body => exact linked
  | delete => exact delete_linked linked _
  | link stack data =>
    unfold linkHeader
    simp only
    split
    · exact pushTop_linked linked _
    · exact pushBottom_linked linked _
  | grow index data h | push stack data h => exact modify_linked linked _ _

theorem HeaderStep.forall_headers {Q : Header → Prop}
    (grow : ∀ h index data, h.idx ≤ index → Q h → Q (addIndexed index data h))
    (push : ∀ h stack data, Q h → Q (pushOnto stack data h))
    (link : ∀ stack data, '[' ∉ name → data ≠ [] → ¬ arrayTag <:+: data →
      Q (linkedHeader stack name data))
    {e e' : Event} (linked : e.headers.Linked) (step : HeaderStep name e e')
    (all : ∀ h ∈ e.list, Q h) : ∀ h ∈ e'.list, Q h := by
  cases step with
  | setBody body => exact all
  | delete =>
    intro h member
    simp only [Event.list, eventDelHeader, eventDelHeaderVal, contents_delete,
      mem_filter] at member
    exact all h member.1
  | grow index data old found above =>
    intro h member
    simp only [Event.list, contents_modify] at member
    rcases mem_modifyFirst member with old' | ⟨other, found', rfl⟩
    · exact all h old'
    · rw [show e.headers.contents.find? (Header.hasName name) = some old from found] at found'
      cases found'
      exact grow old index data above (all old (mem_of_find?_eq_some found))
  | push stack data old found =>
    intro h member
    simp only [Event.list, contents_modify] at member
    rcases mem_modifyFirst member with old' | ⟨other, found', rfl⟩
    · exact all h old'
    · exact push other stack data (all other (mem_of_find?_eq_some found'))
  | link stack data absent plain filled tagless =>
    intro h member
    have new := link stack data plain filled tagless
    rw [linkHeader_list linked] at member
    split at member
    · rcases mem_cons.mp member with rfl | member
      · exact new
      · exact all h member
    · rcases mem_append.mp member with member | member
      · exact all h member
      · rw [mem_singleton.mp member]
        exact new

/-! ### The invariant of every event -/

/-- A header as the code leaves it: the hash of its name, a value, and as a scalar a filled text
without `ARRAY::`. -/
structure Header.Good (h : Header) : Prop where
  hashed : h.hash = ciHash h.name
  valued : ∃ v, h.value = some v
  scalar : h.array = [] → ∃ v, h.value = some v ∧ v ≠ [] ∧ ¬ arrayTag <:+: v

/-- **The invariant of every event.** -/
structure WellFormed (e : Event) : Prop where
  linked : e.headers.Linked
  good : ∀ h ∈ e.list, h.Good

theorem WellFormed.hasName (wf : WellFormed e) (member : h ∈ e.list) (name : Text) :
    h.hasName name = ciEq h.name name :=
  Header.hasName_eq (wf.good h member).hashed _

theorem WellFormed.getHeaderPtr (wf : WellFormed e) (name : Text) :
    eventGetHeaderPtr e name = e.list.find? fun h => ciEq h.name name := by
  exact find?_congr fun h member => wf.hasName member name

theorem HeaderStep.wellFormed (step : HeaderStep name e e') (wf : WellFormed e) :
    WellFormed e' where
  linked := step.linked wf.linked
  good := by
    refine step.forall_headers ?_ ?_ ?_ wf.linked wf.good
    · intro h index data above good
      rw [addIndexed_grow above]
      exact ⟨good.hashed, ⟨_, rfl⟩, fun nothing => by simp [grownArray] at nothing⟩
    · intro h stack data good
      rw [pushOnto_eq]
      exact ⟨good.hashed, ⟨_, rfl⟩, fun nothing => absurd nothing (pushedArray_ne_nil _ _ _)⟩
    · intro stack data _ filled tagless
      exact ⟨rfl, ⟨data, rfl⟩, fun _ => ⟨data, rfl, filled, tagless⟩⟩

theorem WellFormed.withBody (wf : WellFormed e) (name data : Text) :
    WellFormed (withBody e name data) :=
  HeaderSteps.keeps (fun _ _ step => step.wellFormed) (withBody_steps name e name data) wf

end FreeSwitch
