/-
**Rebuilding a header list from the wire.**

A decoder makes a new event and adds the headers it reads one after the other. Where the list comes
out as it was (`Rebuilt.replay`), all that a reader can ask of the two events is the same:

* a scalar goes in behind all others, as it is (`eventBaseAddHeader_list_bottom`);
* an array is pushed element by element (`pushes_list`), which leaves it as it is where its name is
  new and it can be pushed again.

`Rebuildable` is what the list has to be for that, `Rebuilt` the decoder's event on the way.
-/

import FreeSwitch.Event.Dup

namespace FreeSwitch

open CString List

/-! ### Arrays -/

def drawnHeader (name : Text) (array : List Text) : Header :=
  ⟨name, some (render array), array, ciHash name⟩

def pushOne (name : Text) (e : Event) (text : Text) : Event :=
  eventAddHeaderString e Stack.pushed name (some text)

theorem pushOnto_drawn {array : List Text} (filled : array ≠ []) (name data : Text) :
    pushOnto Stack.pushed data (drawnHeader name array) = drawnHeader name (array ++ [data]) := by
  have pushed : pushedArray Stack.pushed data (drawnHeader name array) = array ++ [data] := by
    obtain ⟨a, as, rfl⟩ := exists_cons_of_ne_nil filled
    rfl
  rw [pushOnto_eq, pushed]
  rfl

theorem drawnHeader_hasName (name : Text) (array : List Text) :
    (drawnHeader name array).hasName name = true := by
  rw [Header.hasName_eq rfl]
  exact ciEq_refl name

section Pushes

variable {name : Text} (plain : '[' ∉ name)

include plain

theorem pushOne_list {e : Event} {front : List Header} {array : List Text}
    (shape : e.list = front ++ [drawnHeader name array]) (filled : array ≠ [])
    (new : ∀ h ∈ front, h.hasName name = false) (data : Text) :
    (pushOne name e data).list = front ++ [drawnHeader name (array ++ [data])] := by
  have found : eventGetHeaderPtr e (cut '[' name).1 = some (drawnHeader name array) := by
    rw [cut_of_not_mem plain, eventGetHeaderPtr, shape, find?_append,
      find?_eq_none.mpr fun h member => by simp [new h member], Option.none_or,
      find?_cons_of_pos (drawnHeader_hasName name array)]
  show (eventBaseAddHeader e Stack.pushed name data).list = _
  rw [eventBaseAddHeader_push (by rw [cut_of_not_mem plain]) rfl found, cut_of_not_mem plain]
  unfold Event.list at shape ⊢
  rw [Chain.contents_modify, shape, Chain.modifyFirst_last new (drawnHeader_hasName name array),
    pushOnto_drawn filled]

theorem pushes_list_last (texts : List Text) : ∀ {e : Event} {front : List Header}
    {array : List Text}, e.list = front ++ [drawnHeader name array] → array ≠ [] →
      (∀ h ∈ front, h.hasName name = false) →
      (texts.foldl (pushOne name) e).list = front ++ [drawnHeader name (array ++ texts)] := by
  induction texts with
  | nil =>
    intro e front array shape _ _
    rw [append_nil]
    exact shape
  | cons text texts ih =>
    intro e front array shape filled new
    have pushed := pushOne_list plain shape filled new text
    rw [foldl_cons, ih pushed (by simp) new, append_assoc]
    rfl

variable {e : Event} (wf : WellFormed e) (several : e.uniqHeaders = false)
  (new : ∀ h ∈ e.list, ciEq h.name name = false)

include wf several new

theorem pushOne_list_new {a : Text} (full : a ≠ []) (tagless : ¬ arrayTag <:+: a) :
    (pushOne name e a).list = e.list ++ [drawnHeader name [a]] := by
  have unsplit : ¬ (strstr arrayTag a).isSome = true := mt (strstr_isSome _ _).mp tagless
  show (eventBaseAddHeader e Stack.pushed name a).list = _
  rw [eventBaseAddHeader_new, cut_of_not_mem plain]
  · unfold addNew
    simp only [if_neg full, withBody_uniqHeaders, several, Bool.false_eq_true, if_false,
      if_neg unsplit]
    rw [linkHeader_list (by rw [withBody_headers]; exact wf.linked), if_neg (by decide),
      withBody_list]
    rfl
  · rw [cut_of_not_mem plain]
    intro _
    exact wf.getHeaderPtr name ▸ find?_eq_none.mpr fun h member => by simp [new h member]

theorem pushes_list {a : Text} (as : List Text) (full : a ≠ []) (tagless : ¬ arrayTag <:+: a) :
    ((a :: as).foldl (pushOne name) e).list = e.list ++ [drawnHeader name (a :: as)] := by
  have made := pushOne_list_new plain wf several new full tagless
  have others : ∀ h ∈ e.list, h.hasName name = false := fun h member =>
    (wf.hasName member name).trans (new h member)
  exact pushes_list_last plain as made (cons_ne_nil a []) others

end Pushes

/-! ### A whole list -/

/-- A list that comes out as it was when added header by header to a new event: names have no index,
arrays can be pushed again, and an array is the first header of its name. -/
structure Rebuildable (headers : List Header) : Prop where
  plain : ∀ h ∈ headers, '[' ∉ h.name
  repushable : ∀ h ∈ headers, Repushable h
  first : headers.Pairwise fun before h => h.array ≠ [] → ciEq before.name h.name = false

/-- No header called `Event-Name` has another of its name in front. -/
def NamedOnce (headers : List Header) : Prop :=
  headers.Pairwise fun before h =>
    ciEq h.name "event-name" = true → ciEq before.name h.name = false

variable {e : Event} {h : Header} {headers : List Header}

theorem Rebuildable.front {more : List Header} (all : Rebuildable (headers ++ more)) :
    Rebuildable headers where
  plain := fun b member => all.plain b (mem_append_left _ member)
  repushable := fun b member => all.repushable b (mem_append_left _ member)
  first := (pairwise_append.mp all.first).1

theorem Rebuildable.last (all : Rebuildable (headers ++ [h])) (array : h.array ≠ []) :
    ∀ before ∈ headers, ciEq before.name h.name = false := fun before member =>
  (pairwise_append.mp all.first).2.2 before member h (mem_singleton_self h) array

theorem Header.Good.scalar_eq (good : h.Good) (scalar : h.array = []) :
    ∃ v, h.value = some v ∧ v ≠ [] ∧ ¬ arrayTag <:+: v ∧ h = linkedHeader Stack.bottom h.name v := by
  obtain ⟨v, value, filled, tagless⟩ := good.scalar scalar
  refine ⟨v, value, filled, tagless, ?_⟩
  have hashed := good.hashed
  obtain ⟨name, _, array, hash⟩ := h
  dsimp only at scalar value hashed
  rw [scalar, value, hashed]
  rfl

theorem Repushable.drawn_eq (repushable : Repushable h) (good : h.Good) (array : h.array ≠ []) :
    h = drawnHeader h.name h.array := by
  have value := (repushable array).1
  have hashed := good.hashed
  obtain ⟨name, _, _, hash⟩ := h
  dsimp only at value hashed ⊢
  rw [value, hashed]
  rfl

theorem replayHeader_list (wf : WellFormed e) (several : e.uniqHeaders = false)
    (good : h.Good) (plain : '[' ∉ h.name) (repushable : Repushable h)
    (new : h.array ≠ [] → ∀ b ∈ e.list, ciEq b.name h.name = false) :
    (replayHeader e h).list = e.list ++ [h] := by
  unfold replayHeader
  by_cases array : h.array = []
  · obtain ⟨v, value, filled, tagless, linked⟩ := good.scalar_eq array
    rw [if_neg (by simp [Header.idx, array]), value]
    show (eventBaseAddHeader e Stack.bottom h.name v).list = _
    rw [eventBaseAddHeader_list_bottom wf.linked several plain filled tagless, ← linked]
  · obtain ⟨-, a, as, shape, full, tagless⟩ := repushable array
    rw [if_pos (by simpa [Header.idx] using array)]
    show (h.array.foldl (pushOne h.name) e).list = _
    rw [shape, pushes_list plain wf several (new array) as full tagless, ← shape,
      ← repushable.drawn_eq good array]

/-! ### The event on the way -/

/-- The decoder's event after the headers `headers`. -/
structure Rebuilt (headers : List Header) (e : Event) : Prop where
  wf : WellFormed e
  several : e.uniqHeaders = false
  list : e.list = headers

theorem rebuilt_nil : Rebuilt [] (eventAlloc .clone) :=
  ⟨⟨Chain.empty_linked, fun _ member => absurd member not_mem_nil⟩, rfl, rfl⟩

theorem Rebuilt.replay (rebuilt : Rebuilt headers e) (good : h.Good)
    (rebuildable : Rebuildable (headers ++ [h])) :
    Rebuilt (headers ++ [h]) (replayHeader e h) := by
  have plain : '[' ∉ h.name := rebuildable.plain h (by simp)
  obtain ⟨wf, several⟩ := replayHeader_flags rebuilt.wf h
  refine ⟨wf, several.trans rebuilt.several, ?_⟩
  rw [replayHeader_list rebuilt.wf rebuilt.several good plain (rebuildable.repushable h (by simp)),
    rebuilt.list]
  rw [rebuilt.list]
  exact rebuildable.last

theorem eventDelHeader_list_absent (wf : WellFormed e) {name : Text}
    (absent : ∀ h ∈ e.list, ciEq h.name name = false) : (eventDelHeader e name).list = e.list := by
  unfold eventDelHeader eventDelHeaderVal Event.list
  rw [Chain.contents_delete]
  refine filter_eq_self.mpr fun h member => ?_
  rw [deletes, wf.hasName member, absent h member]
  rfl

theorem Rebuilt.clear (rebuilt : Rebuilt headers e) {name : Text}
    (new : ∀ b ∈ headers, ciEq b.name name = false) (id : EventType) :
    Rebuilt headers { eventDelHeader e name with eventId := id } := by
  have wf := eventDelHeaderVal_wellFormed rebuilt.wf name none
  refine ⟨⟨wf.linked, wf.good⟩, rebuilt.several, ?_⟩
  have absent : ∀ b ∈ e.list, ciEq b.name name = false := by
    rw [rebuilt.list]
    exact new
  exact (eventDelHeader_list_absent rebuilt.wf absent).trans rebuilt.list

theorem replayHeader_body (plain : '[' ∉ h.name) (other : h.name ≠ "_body")
    (e : Event) : (replayHeader e h).body = e.body := by
  unfold replayHeader
  split
  · exact List.foldlRecOn (motive := fun e' => e'.body = e.body) _ _ rfl
      fun e' same element _ => (eventBaseAddHeader_body_other plain other element e' _).trans same
  · cases h.value with
    | none => rfl
    | some v => exact eventBaseAddHeader_body_other plain other v e _

/-! ### The body -/

def eventSetBody (e : Event) (body : Option Text) : Event := { e with body := body }

@[simp] theorem eventSetBody_list (e : Event) (body : Option Text) :
    (eventSetBody e body).list = e.list := rfl

/-- The text in `Content-Length`: the length of the body, as an `int`. -/
@[irreducible] def lengthText (body : Text) : Text := intText (Int.bmod body.length (2 ^ 32))

theorem mem_lengthText {body : Text} {c : Char} (member : c ∈ lengthText body) :
    c = '-' ∨ c.isDigit = true := by
  unfold lengthText at member
  exact mem_intText member

def contentLength (body : Text) : Header :=
  linkedHeader Stack.bottom "Content-Length" (lengthText body)

@[simp] theorem contentLength_name (body : Text) :
    (contentLength body).name = "Content-Length" := rfl

@[simp] theorem contentLength_value (body : Text) :
    (contentLength body).value = some (lengthText body) := rfl

@[simp] theorem contentLength_array (body : Text) : (contentLength body).array = [] := rfl

theorem lengthText_plain (body : Text) : lengthText body ≠ [] ∧ ¬ arrayTag <:+: lengthText body := by
  constructor
  · unfold lengthText intText
    split
    · exact Nat.toDigits_ne_nil
    · exact cons_ne_nil _ _
  · intro inside
    have member : 'A' ∈ lengthText body := inside.subset (by decide)
    rcases mem_lengthText member with same | digit
    · exact absurd same (by decide)
    · exact absurd digit (by decide)

end FreeSwitch
