/-
**What a reader sees of a name.**

A lookup returns the first header of a name up to case, and readers see its value and its array: the
`View` of the name. Here the additions are followed on views.

* `eventBaseAddHeader_view_other`: an addition does not change the view of another name.
-/

import FreeSwitch.Event.Unique

namespace FreeSwitch

open CString List Run Stack

structure View where
  value : Option Text
  array : List Text
  deriving DecidableEq

def Header.view (h : Header) : View := ⟨h.value, h.array⟩

def Event.view (e : Event) (name : Text) : Option View := (eventGetHeaderPtr e name).map Header.view

theorem eventGetHeaderIdx_eq (e : Event) (name : Text) (i : Int) :
    eventGetHeaderIdx e name i =
      match e.view name with
      | some v => if i > -1 then v.array[i.toNat]? else v.value
      | none => if name = "_body" then e.body else none := by
  unfold eventGetHeaderIdx Event.view
  cases eventGetHeaderPtr e name <;> rfl

/-! ### Lookups after a step -/

variable {e : Event} {f : Header → Header} {bound : Nat} {data name other own : Text}

theorem hasName_congr (name : ∀ h, (f h).name = h.name) (hash : ∀ h, (f h).hash = h.hash)
    (other : Text) (h : Header) :
    (f h).hasName other = h.hasName other := by
  unfold Header.hasName
  rw [name, hash]

@[simp] theorem addIndexed_hash (index : Nat) (data : Text) (h : Header) :
    (addIndexed index data h).hash = h.hash := by
  unfold addIndexed
  split
  · rfl
  · rw [redraw_hash]

@[simp] theorem pushOnto_hash (stack : Stack) (data : Text) (h : Header) :
    (pushOnto stack data h).hash = h.hash := by rw [pushOnto_eq]

theorem WellFormed.apart (wf : WellFormed e) (unlike : ciEq other name = false) {h : Header}
    (member : h ∈ e.list) (hit : h.hasName name = true) : h.hasName other = false := by
  rw [wf.hasName member] at *
  rw [ciEq_congr hit, ciEq_comm]
  exact unlike

theorem eventGetHeaderPtr_modify_other (wf : WellFormed e) (name : ∀ h, (f h).name = h.name)
    (hash : ∀ h, (f h).hash = h.hash) (unlike : ciEq other own = false) :
    eventGetHeaderPtr { e with headers := e.headers.modify (Header.hasName own) f } other =
      eventGetHeaderPtr e other := by
  unfold eventGetHeaderPtr Event.list
  rw [Chain.contents_modify]
  refine Chain.find?_modifyFirst_other fun h member hit => ?_
  rw [hasName_congr name hash]
  exact ⟨wf.apart unlike member hit, wf.apart unlike member hit⟩

theorem eventGetHeaderPtr_modify_self (name : ∀ h, (f h).name = h.name)
    (hash : ∀ h, (f h).hash = h.hash) {h : Header} (found : eventGetHeaderPtr e own = some h) :
    eventGetHeaderPtr { e with headers := e.headers.modify (Header.hasName own) f } own =
      some (f h) := by
  unfold eventGetHeaderPtr Event.list at *
  rw [Chain.contents_modify]
  exact Chain.find?_modifyFirst_self found (hasName_congr name hash own h)

theorem eventGetHeaderPtr_delete_other (wf : WellFormed e) (unlike : ciEq other own = false) :
    eventGetHeaderPtr (eventDelHeader e own) other = eventGetHeaderPtr e other := by
  unfold eventGetHeaderPtr Event.list eventDelHeader eventDelHeaderVal
  simp only [Chain.contents_delete, find?_filter]
  refine find?_congr fun h member => ?_
  cases hit : h.hasName other with
  | false => simp
  | true =>
    have miss : h.hasName own = false := wf.apart (ciEq_comm other own ▸ unlike) member hit
    simp [deletes, miss]

theorem linkedHeader_hasName (stack : Stack) (own data other : Text) :
    (linkedHeader stack own data).hasName other = ciEq own other :=
  Header.hasName_eq rfl other

theorem eventGetHeaderPtr_link (wf : WellFormed e) (stack : Stack) (own data other : Text) :
    eventGetHeaderPtr (linkHeader e stack (freshHeader stack own data)) other =
      if ciEq own other then
        if stack.top then some (linkedHeader stack own data)
        else (eventGetHeaderPtr e other).or (some (linkedHeader stack own data))
      else eventGetHeaderPtr e other := by
  unfold eventGetHeaderPtr
  rw [linkHeader_list wf.linked]
  have new := linkedHeader_hasName stack own data other
  by_cases top : stack.top = true
  · rw [if_pos top, if_pos top, find?_cons, new]
    cases ciEq own other <;> rfl
  · rw [if_neg top, if_neg top, find?_append, find?_singleton, new]
    cases ciEq own other with
    | false => exact Option.or_none
    | true => rfl

theorem HeaderStep.ptr_other {e' : Event} (step : HeaderStep name e e') (wf : WellFormed e)
    (unlike : ciEq other name = false) :
    eventGetHeaderPtr e' other = eventGetHeaderPtr e other := by
  cases step with
  | setBody body => rfl
  | delete => exact eventGetHeaderPtr_delete_other wf unlike
  | grow index data h _ _ =>
    exact eventGetHeaderPtr_modify_other wf (addIndexed_name _ _) (addIndexed_hash _ _) unlike
  | push stack data h _ =>
    exact eventGetHeaderPtr_modify_other wf (pushOnto_name _ _) (pushOnto_hash _ _) unlike
  | link stack data _ _ _ _ =>
    rw [eventGetHeaderPtr_link wf, ciEq_comm, unlike, if_neg Bool.false_ne_true]

theorem eventBaseAddHeader_view_other (wf : WellFormed e) (stack : Stack)
    {headerName other : Text} (unlike : ciEq other (cut '[' headerName).1 = false) (data : Text) :
    (eventBaseAddHeader e stack headerName data).view other = e.view other := by
  refine congrArg (Option.map Header.view) ?_
  cases written : overwritten e headerName with
  | some place =>
    rw [eventBaseAddHeader_overwrite written]
    exact eventGetHeaderPtr_modify_other wf (addIndexed_name _ _) (addIndexed_hash _ _) unlike
  | none =>
    refine (HeaderSteps.keeps (P := fun e' => WellFormed e' ∧
      eventGetHeaderPtr e' other = eventGetHeaderPtr e other) (fun e₁ e₂ step both => ?_)
      (eventBaseAddHeader_steps data e stack headerName written) ⟨wf, rfl⟩).2
    exact ⟨step.wellFormed both.1, (step.ptr_other both.1 unlike).trans both.2⟩

/-! ### Pushing onto a view -/

def View.texts (v : View) : List Text :=
  match v.value, v.array with
  | some s, [] => [s]
  | _, array => array

def View.push (data : Text) (v : View) : View :=
  ⟨some (render (v.texts ++ [data])), v.texts ++ [data]⟩

def View.new (stack : Stack) (data : Text) : View :=
  ⟨some data, if stack.pushes then [data] else []⟩

/-- Push a text onto the header of a name. Where there is none, an empty text makes none, and an
`ARRAY::` text is split and its pieces pushed. -/
def pushText (data : Text) (v : Option View) : Option View :=
  match v with
  | some v => some (v.push data)
  | none =>
    if data = [] then none
    else if (strstr arrayTag data).isSome then
      (arrayPieces data).attach.foldl (fun v piece => pushText piece.val v) none
    else some (View.new pushed data)
termination_by data.length
decreasing_by exact arrayPieces_length piece.property

def pushTexts (texts : List Text) (v : Option View) : Option View :=
  texts.foldl (fun v data => pushText data v) v

theorem pushText_some (data : Text) (v : View) : pushText data (some v) = some (v.push data) := by
  rw [pushText]

theorem pushText_none_eq (data : Text) : pushText data none =
    if data = [] then none
    else if (strstr arrayTag data).isSome then pushTexts (arrayPieces data) none
    else some (View.new pushed data) := by
  rw [pushText]
  congr 2
  exact foldl_attach (f := fun v data => pushText data v)

theorem pushTexts_keeps {P : Option View → Prop} {texts : List Text} {before : Option View}
    (start : P before) (each : ∀ t ∈ texts, ∀ v, P v → P (pushText t v)) :
    P (pushTexts texts before) :=
  List.foldlRecOn (motive := P) texts _ start fun v holds t member => each t member v holds

/-- An array as pushes build it: drawn, its first element neither empty nor an array text, and no
element longer than `bound`. -/
structure View.Built (bound : Nat) (v : View) : Prop where
  drawn : v.value = some (render v.array)
  head : ∃ a as, v.array = a :: as ∧ a ≠ [] ∧ ¬ arrayTag <:+: a
  short : ∀ a ∈ v.array, a.length ≤ bound

theorem View.texts_of_array {v : View} (filled : v.array ≠ []) : v.texts = v.array := by
  unfold View.texts
  split
  next nothing =>
    exact absurd nothing filled
  · rfl

theorem View.Built.push {v : View} (built : v.Built bound) (less : data.length ≤ bound) :
    (v.push data).Built bound := by
  obtain ⟨a, as, shape, filled, tagless⟩ := built.head
  have texts : v.texts = a :: as := by rw [View.texts_of_array (by rw [shape]; simp), shape]
  refine ⟨rfl, ⟨a, as ++ [data], by rw [View.push, texts]; rfl, filled, tagless⟩, fun b member => ?_⟩
  rw [View.push, texts, ← shape] at member
  rcases mem_append.mp member with old | new
  · exact built.short b old
  · rw [mem_singleton.mp new]
    exact less

theorem pushText_built (data : Text) (less : data.length ≤ bound) :
    ∀ before, (∀ v ∈ before, v.Built bound) → ∀ v ∈ pushText data before, v.Built bound := by
  induction data using (measure List.length).wf.induction with
  | _ data ih =>
    intro before built v member
    cases before with
    | some v₀ =>
      rw [pushText_some] at member
      obtain rfl := Option.mem_some.mp member
      exact (built v₀ rfl).push less
    | none =>
      rw [pushText_none_eq] at member
      split at member
      · cases member
      next filled =>
        split at member
        · refine pushTexts_keeps (P := fun before => ∀ v ∈ before, v.Built bound) built
            (fun piece inside before built => ?_) v member
          have shorter := arrayPieces_length inside
          exact ih piece shorter (by omega) before built
        next tagless =>
          obtain rfl := Option.mem_some.mp member
          rw [strstr_isSome] at tagless
          refine ⟨rfl, ⟨data, [], rfl, filled, tagless⟩, fun a only => ?_⟩
          rw [mem_singleton.mp only]
          exact less

theorem pushTexts_built {texts : List Text} (less : ∀ t ∈ texts, t.length ≤ bound)
    {before : Option View} (built : ∀ v ∈ before, v.Built bound) :
    ∀ v ∈ pushTexts texts before, v.Built bound :=
  pushTexts_keeps (P := fun before => ∀ v ∈ before, v.Built bound) built
    fun piece inside => pushText_built piece (less piece inside)

theorem foldl_view_pushed (pieces : List Text) (each : ∀ piece ∈ pieces, ∀ e, WellFormed e →
      (eventBaseAddHeader e pushed name piece).view name = pushText piece (e.view name)) :
    ∀ e, WellFormed e →
      (pieces.foldl (fun e piece => eventBaseAddHeader e pushed name piece) e).view name =
        pushTexts pieces (e.view name) := by
  induction pieces with
  | nil => exact fun _ _ => rfl
  | cons piece pieces ih =>
    intro e wf
    have rest := ih (fun other member => each other (mem_cons_of_mem _ member))
      (eventBaseAddHeader e pushed name piece)
      (applyAddition_wellFormed wf ⟨pushed, name, some piece⟩)
    rw [each piece mem_cons_self e wf] at rest
    exact rest

theorem addNew_view (shorter : ∀ piece : Text, piece.length < data.length → ∀ e, WellFormed e →
      (eventBaseAddHeader e pushed name piece).view name = pushText piece (e.view name))
    (wf : WellFormed e) (stack : Stack) (filled : data ≠ []) :
    (addNew e stack name data).view name =
      if (strstr arrayTag data).isSome then
        pushTexts (arrayPieces data) (if e.uniqHeaders then none else e.view name)
      else if stack.top then some (View.new stack data)
      else (if e.uniqHeaders then none else e.view name).or (some (View.new stack data)) := by
  obtain ⟨cleared, shape, wf', before⟩ : ∃ cleared,
      (if e.uniqHeaders = true then eventDelHeader e name else e) = cleared ∧ WellFormed cleared ∧
        cleared.view name = if e.uniqHeaders then none else e.view name := by
    refine ⟨_, rfl, ?_, ?_⟩
    · split
      · exact eventDelHeaderVal_wellFormed wf name none
      · exact wf
    · split
      · exact congrArg (Option.map Header.view) (eventGetHeaderPtr_delete e name)
      · rfl
  unfold addNew
  rw [if_neg filled]
  simp only [shape, ← before]
  split
  · exact foldl_view_pushed _ (fun piece member => shorter piece (arrayPieces_length member)) _ wf'
  · unfold Event.view
    rw [eventGetHeaderPtr_link wf', ciEq_refl, if_pos rfl]
    split
    · rfl
    · cases eventGetHeaderPtr cleared name <;> rfl

theorem eventBaseAddHeader_view_pushed (plain : '[' ∉ name) (data : Text) :
    ∀ e, WellFormed e →
      (eventBaseAddHeader e pushed name data).view name = pushText data (e.view name) := by
  have cutPlain := cut_of_not_mem plain
  induction data using (measure List.length).wf.induction with
  | _ data ih =>
    intro e wf
    cases found : eventGetHeaderPtr e name with
    | some h =>
      have foundCut : eventGetHeaderPtr e (cut '[' name).1 = some h := by rw [cutPlain, found]
      have seen : e.view name = some h.view := by rw [Event.view, found]; rfl
      rw [eventBaseAddHeader_push (congrArg Prod.snd cutPlain) rfl foundCut, seen, pushText_some,
        cutPlain, ← withBody_headers e name data]
      unfold Event.view
      rw [eventGetHeaderPtr_modify_self (pushOnto_name _ _) (pushOnto_hash _ _)
        (by rw [eventGetHeaderPtr_withBody, found]), pushOnto_eq]
      rfl
    | none =>
      have unseen : e.view name = none := by rw [Event.view, found]; rfl
      have wf' := wf.withBody name data
      have missing : (withBody e name data).view name = none := by
        rw [Event.view, eventGetHeaderPtr_withBody, found]; rfl
      rw [eventBaseAddHeader_new (fun _ => by rw [cutPlain, found]), cutPlain, unseen,
        pushText_none_eq]
      by_cases filled : data = []
      · rw [if_pos filled, addNew, if_pos filled]
        exact congrArg (Option.map Header.view) (eventGetHeaderPtr_delete _ name)
      · rw [if_neg filled, addNew_view ih wf' pushed filled, missing, ite_self]
        rfl

theorem eventBaseAddHeader_view_bottom (plain : '[' ∉ name) {data : Text}
    (filled : data ≠ []) {e : Event} (wf : WellFormed e) :
    (eventBaseAddHeader e bottom name data).view name =
      if (strstr arrayTag data).isSome then
        pushTexts (arrayPieces data) (if e.uniqHeaders then none else e.view name)
      else (if e.uniqHeaders then none else e.view name).or (some (View.new bottom data)) := by
  have cutPlain := cut_of_not_mem plain
  have wf' := wf.withBody name data
  have same : (withBody e name data).view name = e.view name := by
    rw [Event.view, eventGetHeaderPtr_withBody]; rfl
  rw [eventBaseAddHeader_new (fun looks => by simp [cutPlain, bottom, pushes] at looks),
    cutPlain, addNew_view (fun piece _ => eventBaseAddHeader_view_pushed plain piece) wf' _ filled,
    same, withBody_uniqHeaders]
  rfl

theorem eventBaseAddHeader_ptr_index {headerName text : Text} {h : Header}
    (indexed : (cut '[' headerName).2 = some text)
    (found : eventGetHeaderPtr e (cut '[' headerName).1 = some h) (range : indexInRange text)
    (stack : Stack) (data : Text) :
    eventGetHeaderPtr (eventBaseAddHeader e stack headerName data) (cut '[' headerName).1 =
      some (addIndexed (atoi text).toNat data h) := by
  rw [eventBaseAddHeader_at indexed found, if_pos range]
  exact eventGetHeaderPtr_modify_self (addIndexed_name _ _) (addIndexed_hash _ _) found

/-! ### The body an addition leaves -/

theorem eventBaseAddHeader_plain (plain : '[' ∉ name) (e : Event) (stack : Stack)
    (data : Text) :
    eventBaseAddHeader e stack name data =
        { withBody e name data with
          headers := e.headers.modify (Header.hasName name) (pushOnto stack data) } ∨
      eventBaseAddHeader e stack name data = addNew (withBody e name data) stack name data := by
  have cutPlain := cut_of_not_mem plain
  cases found : eventGetHeaderPtr e name with
  | none =>
    refine Or.inr ?_
    rw [eventBaseAddHeader_new (fun _ => by rw [cutPlain, found]), cutPlain]
  | some h =>
    cases pushes : stack.pushes with
    | true =>
      refine Or.inl ?_
      rw [eventBaseAddHeader_push (congrArg Prod.snd cutPlain) pushes (by rw [cutPlain, found]),
        cutPlain]
    | false =>
      refine Or.inr ?_
      rw [eventBaseAddHeader_new (by simp [cutPlain, pushes]), cutPlain]

theorem addNew_body {P : Option Text → Prop}
    (shorter : ∀ piece : Text, piece.length < data.length → ∀ e : Event, P e.body →
      P (eventBaseAddHeader e pushed name piece).body) (start : P e.body) (stack : Stack) :
    P (addNew e stack name data).body := by
  unfold addNew
  split
  · exact start
  · have cleared : P (if e.uniqHeaders = true then eventDelHeader e name else e).body := by
      split <;> exact start
    simp only
    split
    · exact List.foldlRecOn (motive := fun e => P e.body) _ _ cleared
        fun e holds piece member => shorter piece (arrayPieces_length member) e holds
    · exact cleared

/-- The event has a body no longer than `bound`. -/
def ShortBody (bound : Nat) (e : Event) : Prop := ∃ b, e.body = some b ∧ b.length ≤ bound

theorem eventBaseAddHeader_shortBody (data : Text) : ∀ (e : Event) (stack : Stack),
    ShortBody data.length (eventBaseAddHeader e stack "_body" data) := by
  have plain : '[' ∉ "_body".toList := by decide
  induction data using (measure List.length).wf.induction with
  | _ data ih =>
    intro e stack
    have start : ShortBody data.length (withBody e "_body" data) := by
      unfold withBody
      rw [if_pos rfl]
      exact ⟨data, rfl, le_rfl⟩
    rcases eventBaseAddHeader_plain plain e stack data with push | new
    · rw [push]
      exact start
    · rw [new]
      refine addNew_body (P := fun body => ∃ b, body = some b ∧ b.length ≤ data.length)
        (fun piece less e _ => ?_) start stack
      obtain ⟨b, set, short⟩ := ih piece less e pushed
      exact ⟨b, set, short.trans (Nat.le_of_lt less)⟩

theorem eventBaseAddHeader_body_other (plain : '[' ∉ name)
    (other : name ≠ "_body") (data : Text) : ∀ (e : Event) (stack : Stack),
    (eventBaseAddHeader e stack name data).body = e.body := by
  induction data using (measure List.length).wf.induction with
  | _ data ih =>
    intro e stack
    have start : withBody e name data = e := if_neg other
    rcases eventBaseAddHeader_plain plain e stack data with push | new
    · rw [push, start]
    · rw [new, start]
      refine addNew_body (P := fun body => body = e.body) (fun piece less e' same => ?_) rfl stack
      exact (ih piece less e' pushed).trans same

end FreeSwitch
