/-
**Replaying the headers of one name.**

A copy replays the headers one after another: an array element by element with a push, a scalar with
an addition at the bottom. On the view of a name only the headers of that name count, and
`replayView` is what one of them does.

* `replay_tail`: so do the replays after a header, as long as no scalar resets it;
* `replay_sound`: what replays leave is drawn and begins with a filled, untagged text;
* `replay_class_iff`: when all headers of a name leave the view of the first.
-/

import FreeSwitch.Event.View

namespace FreeSwitch

open CString List Option Run View

/-! ### Appending to a view -/

def View.append (v : View) (texts : List Text) : View :=
  if texts = [] then v else ⟨some (render (v.texts ++ texts)), v.texts ++ texts⟩

theorem View.push_texts (v : View) (data : Text) : (v.push data).texts = v.texts ++ [data] :=
  texts_of_array (by simp [push])

theorem View.append_push (v : View) (data : Text) (texts : List Text) :
    (v.push data).append texts = v.append (data :: texts) := by
  unfold append
  rw [if_neg (cons_ne_nil _ _)]
  split
  next nothing =>
    rw [nothing]
    rfl
  · rw [push_texts, append_assoc]
    rfl

theorem pushTexts_some (texts : List Text) : ∀ v : View,
    pushTexts texts (some v) = some (v.append texts) := by
  induction texts with
  | nil => exact fun _ => rfl
  | cons data texts ih =>
    intro v
    show pushTexts texts (pushText data (some v)) = _
    rw [pushText_some, ih, append_push]

theorem pushTexts_filled {a : Text} (full : a ≠ []) (tagless : ¬ arrayTag <:+: a) (as : List Text) :
    pushTexts (a :: as) none = some ⟨some (render (a :: as)), a :: as⟩ := by
  have first : pushText a none = some (new Stack.pushed a) := by
    rw [pushText_none_eq, if_neg full, if_neg (mt (strstr_isSome _ _).mp tagless)]
  show pushTexts as (pushText a none) = _
  rw [first, pushTexts_some, append]
  split
  next nothing =>
    rw [nothing]
    rfl
  · rfl

theorem View.append_append (v : View) (xs ys : List Text) :
    (v.append xs).append ys = v.append (xs ++ ys) := by
  have joined : pushTexts (xs ++ ys) (some v) = pushTexts ys (pushTexts xs (some v)) :=
    foldl_append ..
  rw [pushTexts_some, pushTexts_some, pushTexts_some] at joined
  exact (some.inj joined).symm

theorem View.array_le_texts (v : View) : v.array.length ≤ v.texts.length := by
  unfold texts
  split
  next nothing =>
    rw [nothing]
    exact Nat.zero_le _
  · exact le_rfl

variable {uniq : Bool} {h : Header} {headers : List Header} {v : View}

theorem View.append_eq_self {texts : List Text} : v.append texts = v ↔ texts = [] := by
  constructor
  · intro same
    by_contra more
    rw [append, if_neg more] at same
    have size := congrArg (fun v => v.array.length) same
    simp only [length_append] at size
    have := v.array_le_texts
    have := length_pos_iff.mpr more
    omega
  · rintro rfl
    rfl

/-! ### Replaying one header -/

def replayView (uniq : Bool) (before : Option View) (h : Header) : Option View :=
  if h.array ≠ [] then pushTexts h.array before
  else if uniq then some h.view
  else before.or (some h.view)

theorem replay_tail {rest : List Header} (arrays : uniq = true → ∀ b ∈ rest, b.array ≠ [])
    (v : View) :
    rest.foldl (replayView uniq) (some v) = some (v.append (rest.flatMap Header.array)) := by
  induction rest generalizing v with
  | nil => rfl
  | cons b rest ih =>
    have step : replayView uniq (some v) b = some (v.append b.array) := by
      unfold replayView
      split
      · exact pushTexts_some _ _
      next scalar =>
        have several : uniq = false := by
          cases uniq with
          | false => rfl
          | true => exact absurd (arrays rfl b mem_cons_self) scalar
        rw [not_not.mp scalar, several]
        rfl
    rw [foldl_cons, step, ih fun uniq b member => arrays uniq b (mem_cons_of_mem _ member),
      append_append, flatMap_cons]

/-! ### What replays leave -/

structure View.Sound (v : View) : Prop where
  drawn : v.array ≠ [] → v.value = some (render v.array)
  head : ∃ a as, v.texts = a :: as ∧ a ≠ [] ∧ ¬ arrayTag <:+: a

theorem View.Built.sound {bound : Nat} (built : v.Built bound) : v.Sound := by
  obtain ⟨a, as, shape, good⟩ := built.head
  exact ⟨fun _ => built.drawn, a, as, by rw [texts_of_array (by simp [shape]), shape], good⟩

theorem View.Sound.push (sound : v.Sound) (data : Text) : (v.push data).Sound := by
  obtain ⟨a, as, shape, good⟩ := sound.head
  exact ⟨fun _ => rfl, a, as ++ [data], by rw [push_texts, shape]; rfl, good⟩

theorem pushTexts_sound (texts : List Text) {before : Option View}
    (sound : ∀ v ∈ before, v.Sound) : ∀ v ∈ pushTexts texts before, v.Sound := by
  refine pushTexts_keeps (P := fun before => ∀ v ∈ before, v.Sound) sound
    fun data _ before sound v member => ?_
  cases before with
  | some v₀ =>
    rw [pushText_some] at member
    obtain rfl := mem_some.mp member
    exact (sound v₀ rfl).push data
  | none =>
    have nothing : ∀ v ∈ (none : Option View), v.Built data.length := by simp
    exact (pushText_built data le_rfl none nothing v member).sound

theorem Header.texts_of_scalar {v : Text} (scalar : h.array = []) (value : h.value = some v) :
    h.view.texts = [v] := by
  unfold texts Header.view
  rw [scalar, value]

theorem Header.Good.sound (good : h.Good) (scalar : h.array = []) : h.view.Sound := by
  obtain ⟨v, value, filled, tagless⟩ := good.scalar scalar
  exact ⟨fun array => absurd scalar array, v, [], Header.texts_of_scalar scalar value, filled,
    tagless⟩

theorem replay_sound (good : ∀ h ∈ headers, h.Good) {before : Option View}
    (sound : ∀ v ∈ before, v.Sound) :
    ∀ v ∈ headers.foldl (replayView uniq) before, v.Sound := by
  refine List.foldlRecOn (motive := fun before : Option View => ∀ v ∈ before, v.Sound) headers _
    sound ?_
  intro before sound h member v inside
  unfold replayView at inside
  split at inside
  · exact pushTexts_sound _ sound v inside
  next scalar =>
    have own := (good h member).sound (not_not.mp scalar)
    split at inside
    · obtain rfl := mem_some.mp inside
      exact own
    · cases before with
      | none =>
        obtain rfl := mem_some.mp inside
        exact own
      | some v₀ => exact sound v inside

/-! ### The first header of a name -/

/-- The array can be pushed again from nothing: it is drawn, its first element filled and untagged.
-/
def Repushable (h : Header) : Prop :=
  h.array ≠ [] → h.value = some (render h.array) ∧
    ∃ a as, h.array = a :: as ∧ a ≠ [] ∧ ¬ arrayTag <:+: a

/-- The headers `h :: rest` of a name, replayed in order, leave the view of `h`: it can be pushed
again, and

* without unique headers, no other is an array, whose elements would be pushed onto `h`;
* with unique headers, `h` is the only one, or the last scalar and the arrays behind it spell `h`. -/
def Faithful (uniq : Bool) (h : Header) (rest : List Header) : Prop :=
  Repushable h ∧
    if uniq then
      rest = [] ∨ ∃ front s back, rest = front ++ s :: back ∧ s.array = [] ∧
        (∀ b ∈ back, b.array ≠ []) ∧
        (back = [] ∧ h.array = [] ∧ h.value = s.value ∨
          back ≠ [] ∧ h.array = s.value.toList ++ back.flatMap Header.array)
    else ∀ b ∈ rest, b.array = []

theorem replayView_first (repushable : Repushable h) (uniq : Bool) :
    replayView uniq none h = some h.view := by
  unfold replayView
  split
  next filled =>
    obtain ⟨drawn, a, as, shape, full, tagless⟩ := repushable filled
    have seen : h.view = ⟨some (render (a :: as)), a :: as⟩ := by
      rw [Header.view, drawn, shape]
    rw [shape, seen]
    exact pushTexts_filled full tagless as
  · cases uniq <;> rfl

theorem flatMap_array_eq_nil :
    headers.flatMap Header.array = [] ↔ ∀ b ∈ headers, b.array = [] := flatMap_eq_nil_iff

theorem exists_first_scalar (some : ∃ s ∈ headers, s.array = []) :
    ∃ front s back, headers = front ++ s :: back ∧ s.array = [] ∧ ∀ b ∈ front, b.array ≠ [] := by
  have finds : (headers.find? (·.array = [])).isSome := by simpa using some
  obtain ⟨s, found⟩ := isSome_iff_exists.mp finds
  obtain ⟨scalar, front, back, split, before⟩ := find?_eq_some_iff_append.mp found
  exact ⟨front, s, back, split, by simpa using scalar, by simpa using before⟩

theorem exists_last_scalar (some : ∃ s ∈ headers, s.array = []) :
    ∃ front s back, headers = front ++ s :: back ∧ s.array = [] ∧ ∀ b ∈ back, b.array ≠ [] := by
  obtain ⟨back, s, front, split, scalar, arrays⟩ :=
    @exists_first_scalar headers.reverse (by simpa using some)
  refine ⟨front.reverse, s, back.reverse, ?_, scalar, fun b member => ?_⟩
  · rw [← reverse_reverse headers, split]
    simp
  · exact arrays b (mem_reverse.mp member)

theorem replay_arrays (arrays : ∀ b ∈ headers, b.array ≠ []) (before : Option View) :
    headers.foldl (replayView uniq) before = pushTexts (headers.flatMap Header.array) before := by
  induction headers generalizing before with
  | nil => rfl
  | cons b headers ih =>
    obtain ⟨array, later⟩ := forall_mem_cons.mp arrays
    rw [foldl_cons, replayView, if_pos array, ih later, flatMap_cons]
    exact (foldl_append ..).symm

theorem replay_last_scalar {front back : List Header} {s : Header} (scalar : s.array = [])
    (arrays : ∀ b ∈ back, b.array ≠ []) (before : Option View) :
    (front ++ s :: back).foldl (replayView true) before =
      pushTexts (back.flatMap Header.array) (some s.view) := by
  rw [foldl_append, foldl_cons, replayView, if_neg (not_not.mpr scalar), if_pos rfl,
    replay_arrays arrays]

theorem scalar_append_eq {s : Header} (repushable : Repushable h) (scalar : s.array = [])
    (valued : ∃ v, s.value = some v) {back : List Header} (arrays : ∀ b ∈ back, b.array ≠ []) :
    s.view.append (back.flatMap Header.array) = h.view ↔
      (back = [] ∧ h.array = [] ∧ h.value = s.value ∨
        back ≠ [] ∧ h.array = s.value.toList ++ back.flatMap Header.array) := by
  obtain ⟨v, value⟩ := valued
  have texts : s.view.texts = [v] := Header.texts_of_scalar scalar value
  cases back with
  | nil =>
    simp only [flatMap_nil, View.append, if_true, ne_eq, not_true_eq_false, false_and, or_false,
      true_and]
    constructor
    · intro same
      exact ⟨(congrArg View.array same).symm.trans scalar, (congrArg View.value same).symm⟩
    · rintro ⟨array, same⟩
      unfold Header.view
      rw [array, same, scalar]
  | cons b back =>
    have filled : (b :: back).flatMap Header.array ≠ [] := fun nothing =>
      arrays b mem_cons_self (flatMap_array_eq_nil.mp nothing b mem_cons_self)
    rw [View.append, if_neg filled, texts, value]
    simp only [reduceCtorEq, false_and, ne_eq, not_false_eq_true, true_and, false_or,
      toList_some]
    constructor
    · exact fun same => (congrArg View.array same).symm
    · intro spelled
      have drawn := (repushable (by rw [spelled]; simp)).1
      unfold Header.view
      rw [drawn, spelled]

/-- **Replayed from nothing, the headers of a name leave the view of the first exactly when they are
faithful.** -/
theorem replay_class_iff {rest : List Header} (good : ∀ b ∈ h :: rest, b.Good) :
    (h :: rest).foldl (replayView uniq) none = some h.view ↔ Faithful uniq h rest := by
  by_cases repushable : Repushable h
  · unfold Faithful
    rw [foldl_cons, replayView_first repushable, and_iff_right repushable]
    cases uniq with
    | false =>
      rw [replay_tail (by simp), some_inj, append_eq_self, flatMap_array_eq_nil]
      simp
    | true =>
      rw [if_pos rfl]
      by_cases scalars : ∃ s ∈ rest, s.array = []
      · constructor
        · intro same
          obtain ⟨front, s, back, rfl, scalar, arrays⟩ := exists_last_scalar scalars
          rw [replay_last_scalar scalar arrays, pushTexts_some, some_inj] at same
          have valued := (good s (by simp)).valued
          exact Or.inr ⟨front, s, back, rfl, scalar, arrays,
            (scalar_append_eq repushable scalar valued arrays).mp same⟩
        · rintro (rfl | ⟨front, s, back, rfl, scalar, arrays, spelled⟩)
          · simp at scalars
          · have valued := (good s (by simp)).valued
            rw [replay_last_scalar scalar arrays, pushTexts_some,
              (scalar_append_eq repushable scalar valued arrays).mpr spelled]
      · have arrays : ∀ b ∈ rest, b.array ≠ [] := fun b member array => scalars ⟨b, member, array⟩
        rw [replay_tail fun _ => arrays, some_inj, append_eq_self, flatMap_array_eq_nil]
        constructor
        · intro nothing
          refine Or.inl (eq_nil_iff_forall_not_mem.mpr fun b member => ?_)
          exact arrays b member (nothing b member)
        · rintro (rfl | ⟨front, s, back, rfl, scalar, -⟩)
          · simp
          · exact absurd scalar (arrays s (by simp))
  · refine iff_of_false (fun same => repushable fun filled => ?_)
      fun faithful => repushable faithful.1
    -- Whatever order the replays come in, the array they leave is drawn and begins well.
    have sound : h.view.Sound := replay_sound good (by simp) h.view same
    obtain ⟨a, as, shape, full⟩ := sound.head
    rw [texts_of_array filled] at shape
    exact ⟨sound.drawn filled, a, as, shape, full⟩

/-! ### Headers behind a view -/

/-- The headers of a name, added to what it shows before, make it show `shown`: the arrays are pushed
onto it. With unique headers only what follows the last scalar counts; without them the first scalar
is shown if nothing is before it. -/
def Leaves (uniq : Bool) (before : Option View) (headers : List Header) (shown : Option View) :
    Prop :=
  ((∀ b ∈ headers, b.array ≠ []) ∧ shown = pushTexts (headers.flatMap Header.array) before) ∨
  ∃ front s back, headers = front ++ s :: back ∧ s.array = [] ∧
    if uniq then
      (∀ b ∈ back, b.array ≠ []) ∧ shown = pushTexts (back.flatMap Header.array) (some s.view)
    else
      (∀ b ∈ front, b.array ≠ []) ∧ shown = pushTexts (back.flatMap Header.array)
        ((pushTexts (front.flatMap Header.array) before).or (some s.view))

theorem replay_first_scalar {front back : List Header} {s : Header} (scalar : s.array = [])
    (arrays : ∀ b ∈ front, b.array ≠ []) (before : Option View) :
    (front ++ s :: back).foldl (replayView false) before = pushTexts (back.flatMap Header.array)
      ((pushTexts (front.flatMap Header.array) before).or (some s.view)) := by
  rw [foldl_append, foldl_cons, replay_arrays arrays, replayView, if_neg (not_not.mpr scalar)]
  cases pushTexts (front.flatMap Header.array) before <;>
    exact (replay_tail (by simp) _).trans (pushTexts_some _ _).symm

theorem replay_leaves_iff {before shown : Option View} :
    headers.foldl (replayView uniq) before = shown ↔ Leaves uniq before headers shown := by
  constructor
  · rintro rfl
    by_cases scalars : ∃ s ∈ headers, s.array = []
    · refine .inr ?_
      cases uniq with
      | true =>
        obtain ⟨front, s, back, rfl, scalar, arrays⟩ := exists_last_scalar scalars
        exact ⟨front, s, back, rfl, scalar, arrays, replay_last_scalar scalar arrays _⟩
      | false =>
        obtain ⟨front, s, back, rfl, scalar, arrays⟩ := exists_first_scalar scalars
        exact ⟨front, s, back, rfl, scalar, arrays, replay_first_scalar scalar arrays _⟩
    · have arrays : ∀ b ∈ headers, b.array ≠ [] := fun b member array => scalars ⟨b, member, array⟩
      exact .inl ⟨arrays, replay_arrays arrays _⟩
  · rintro (⟨arrays, rfl⟩ | ⟨front, s, back, rfl, scalar, counts⟩)
    · exact replay_arrays arrays _
    · cases uniq with
      | true =>
        obtain ⟨arrays, rfl⟩ := counts
        exact replay_last_scalar scalar arrays _
      | false =>
        obtain ⟨arrays, rfl⟩ := counts
        exact replay_first_scalar scalar arrays _

end FreeSwitch
