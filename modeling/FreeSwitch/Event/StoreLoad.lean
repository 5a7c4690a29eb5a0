/-
**What is stored is what is read back.**

On an event with unique headers, a text added under a plain name should be read back verbatim, and
a text added under `name[i]` should be read back at the index `i`.

* `stored_read_back`: the first holds exactly when the text does not contain `ARRAY::`, wherever
  it stands; an array text is recognised by a substring search;
* `stored_index_read_back`: the second holds exactly when the header exists already, apart from
  a push of an untagged text to index 0. Where the header is missing the index is dropped.

`header_store_load_iff` is the two together.
-/

import FreeSwitch.Event.Render
import FreeSwitch.Event.View

namespace FreeSwitch

open CString List Run

/-! ### Texts that contain the array mark -/

variable {e : Event} {name v : Text}

theorem arrayPieces_ne_nil (tagged : arrayTag <:+: v) (inside : ¬ arrayTag <+: v) :
    arrayPieces v ≠ [] := by
  obtain ⟨front, back, rfl⟩ := tagged
  have far : front ≠ [] := by
    rintro rfl
    exact inside ⟨back, by simp⟩
  have long : ¬ (front ++ arrayTag ++ back).length < 8 := by
    have some := length_pos_iff.mpr far
    have seven : arrayTag.length = 7 := rfl
    simp only [length_append]
    omega
  unfold arrayPieces
  rw [if_neg long, separateStr_eq]
  exact splitStr_ne_nil _ _ _

/-- **A split text is not read back**: neither value, element nor body of the pieces is the text. -/
theorem pushed_pieces_differ (inside : ¬ arrayTag <+: v) {w : View}
    (built : w ∈ pushTexts (arrayPieces v) none) :
    w.value ≠ some v ∧ ∀ i : Nat, w.array[i]? ≠ some v := by
  have short : ∀ piece ∈ arrayPieces v, piece.length ≤ v.length - 1 := fun piece member => by
    have shorter := arrayPieces_length member
    omega
  have nothing : ∀ w ∈ (none : Option View), w.Built (v.length - 1) := by simp
  have array := pushTexts_built short nothing w built
  obtain ⟨a, as, shape, filled, -⟩ := array.head
  have positive : 0 < a.length := length_pos_iff.mpr filled
  have less : ∀ b ∈ w.array, b.length < v.length := by
    intro b member
    have bound := array.short b member
    have first := array.short a (by rw [shape]; exact mem_cons_self)
    omega
  constructor
  · rw [array.drawn, Ne, Option.some_inj]
    intro same
    by_cases many : 2 ≤ w.array.length
    · rw [render_of_two_le many] at same
      exact inside ⟨_, same⟩
    · obtain ⟨only, single⟩ := length_eq_one_iff.mp
        (by have := congrArg List.length shape; simp only [length_cons] at this; omega :
          w.array.length = 1)
      rw [single] at same
      have shorter := less only (by rw [single]; exact mem_cons_self)
      rw [show only = v from same] at shorter
      exact lt_irrefl _ shorter
  · intro i here
    exact lt_irrefl _ (less v (mem_of_getElem? here))

theorem foldl_shortBody {bound : Nat} {f : Event → Text → Event} {pieces : List Text}
    (each : ∀ piece ∈ pieces, ∀ e, ShortBody bound (f e piece))
    (start : pieces = [] → ShortBody bound e) : ShortBody bound (pieces.foldl f e) := by
  induction pieces generalizing e with
  | nil => exact start rfl
  | cons piece pieces ih =>
    refine ih (fun other member => each other (mem_cons_of_mem _ member)) fun _ => ?_
    exact each piece mem_cons_self e

theorem addNew_split_not_read_back (flags : Flagged e)
    (plain : '[' ∉ name) (tagged : arrayTag <:+: v) (inside : ¬ arrayTag <+: v) (stack : Stack)
    (i : Int) : eventGetHeaderIdx (addNew e stack name v) name i ≠ some v := by
  have long : 7 ≤ v.length := tagged.length_le
  have filled : v ≠ [] := by
    rintro rfl
    simp at long
  have view : (addNew e stack name v).view name = pushTexts (arrayPieces v) none := by
    rw [addNew_view (fun piece _ => eventBaseAddHeader_view_pushed plain piece) flags.wf stack filled,
      if_pos ((strstr_isSome _ _).mpr tagged), flags.uniq, if_pos rfl]
  rw [eventGetHeaderIdx_eq, view]
  cases built : pushTexts (arrayPieces v) none with
  | some w =>
    obtain ⟨value, elements⟩ := pushed_pieces_differ inside built
    simp only
    split
    · exact elements _
    · exact value
  | none =>
    simp only
    split
    next isBody =>
      obtain ⟨b, set, less⟩ : ShortBody (v.length - 1) (addNew e stack name v) := by
        unfold addNew
        simp only
        rw [if_neg filled, if_pos ((strstr_isSome _ _).mpr tagged), isBody]
        refine foldl_shortBody (fun piece member e => ?_) fun nothing => ?_
        · obtain ⟨b, set, less⟩ := eventBaseAddHeader_shortBody piece e Stack.pushed
          have shorter := arrayPieces_length member
          exact ⟨b, set, by omega⟩
        · exact absurd nothing (arrayPieces_ne_nil tagged inside)
      rw [set, Ne, Option.some_inj]
      rintro rfl
      omega
    · simp

theorem withBody_flagged (flags : Flagged e) (headerName data : Text) :
    Flagged (withBody e headerName data) :=
  ⟨⟨by rw [withBody_headers]; exact flags.wf.linked, by rw [withBody_list]; exact flags.wf.good⟩,
    by rw [withBody_uniqHeaders]; exact flags.uniq⟩

/-! ### Plain names -/

theorem stored_read_back (flags : Flagged e) (plain : '[' ∉ name)
    (filled : v ≠ []) (inside : ¬ arrayTag <+: v) :
    eventGetHeader (eventAddHeaderString e Stack.bottom name (some v)) name = some v ↔
      ¬ arrayTag <:+: v := by
  show eventGetHeaderIdx (eventBaseAddHeader e Stack.bottom name v) name (-1) = some v ↔ _
  constructor
  · intro same tagged
    refine addNew_split_not_read_back (withBody_flagged flags name v) plain tagged inside
      Stack.bottom (-1) ?_
    rw [eventBaseAddHeader_new (by simp [cut_of_not_mem plain, Stack.bottom, Stack.pushes]),
      cut_of_not_mem plain] at same
    exact same
  · intro tagless
    rw [eventGetHeaderIdx_eq, eventBaseAddHeader_view_bottom plain filled flags.wf, flags.uniq,
      if_neg (mt (strstr_isSome _ _).mp tagless), if_pos rfl, Option.none_or]
    rfl

/-! ### Indexed names -/

/-- The name `name[i]`. -/
def indexedName (name : Text) (i : Nat) : Text := name ++ '[' :: (Nat.toDigits 10 i ++ [']'])

theorem cut_indexedName (plain : '[' ∉ name) (i : Nat) :
    cut '[' (indexedName name i) = (name, some (Nat.toDigits 10 i ++ [']'])) :=
  cut_append_cons plain _

theorem atoi_index {i : Nat} (small : i ≤ 4000) : atoi (Nat.toDigits 10 i ++ [']']) = i :=
  atoi_toDigits i (by omega) (by simp)

theorem indexInRange_index {i : Nat} (small : i ≤ 4000) :
    indexInRange (Nat.toDigits 10 i ++ [']']) := by
  unfold indexInRange
  rw [atoi_index small]
  omega

theorem addIndexed_array (i : Nat) (v : Text) (h : Header) :
    (addIndexed i v h).array[i]? = some v ∧
      ∀ j, j ≠ i → j < h.idx → (addIndexed i v h).array[j]? = h.array[j]? := by
  by_cases below : i < h.idx
  · rw [addIndexed_overwrite below]
    refine ⟨getElem?_set_self below, fun j other _ => ?_⟩
    exact getElem?_set_ne (Ne.symm other)
  · rw [addIndexed_grow (Nat.le_of_not_lt below)]
    have size : (h.array ++ List.replicate (i - h.idx) []).length = i := by
      rw [length_append, length_replicate]
      unfold Header.idx at *
      omega
    refine ⟨?_, fun j _ old => ?_⟩
    · show (h.array ++ List.replicate (i - h.idx) [] ++ [v])[i]? = some v
      rw [getElem?_append_right (by omega), size, Nat.sub_self]
      rfl
    · show (h.array ++ List.replicate (i - h.idx) [] ++ [v])[j]? = _
      rw [append_assoc, getElem?_append_left old]

def Event.count (e : Event) (name : Text) : Nat := (e.view name).elim 0 fun v => v.array.length

/-- Index `i` of `name` gives `v`, and the other elements are as before. -/
def IndexStored (e e' : Event) (name : Text) (i : Nat) (v : Text) : Prop :=
  eventGetHeaderIdx e' name i = some v ∧
    ∀ j : Nat, j ≠ i → j < e.count name → eventGetHeaderIdx e' name j = eventGetHeaderIdx e name j

theorem eventGetHeaderIdx_found {h : Header} (found : eventGetHeaderPtr e name = some h) (j : Nat) :
    eventGetHeaderIdx e name j = h.array[j]? := by
  unfold eventGetHeaderIdx
  rw [found]
  exact if_pos (by omega)

section Index

variable {e : Event} {name v : Text} {i : Nat}

theorem stored_index_present {h : Header} (found : eventGetHeaderPtr e name = some h)
    (plain : '[' ∉ name) (stack : Stack) (small : i ≤ 4000) :
    IndexStored e (eventBaseAddHeader e stack (indexedName name i) v) name i v := by
  have parts := cut_indexedName plain i
  have after := eventBaseAddHeader_ptr_index (congrArg Prod.snd parts)
    (by rw [parts, found]) (indexInRange_index small) stack v
  rw [parts, atoi_index small] at after
  obtain ⟨new, old⟩ := addIndexed_array i v h
  refine ⟨by rw [eventGetHeaderIdx_found after]; exact new, fun j other below => ?_⟩
  rw [eventGetHeaderIdx_found after, eventGetHeaderIdx_found found]
  refine old j other ?_
  rw [Event.count, Event.view, found] at below
  exact below

theorem stored_index_missing (flags : Flagged e) (missing : eventGetHeaderPtr e name = none)
    (plain : '[' ∉ name) (filled : v ≠ []) (inside : ¬ arrayTag <+: v) (stack : Stack)
    (small : i ≤ 4000) :
    IndexStored e (eventBaseAddHeader e stack (indexedName name i) v) name i v ↔
      i = 0 ∧ stack.pushes = true ∧ ¬ arrayTag <:+: v := by
  have parts := cut_indexedName plain i
  have count : e.count name = 0 := by rw [Event.count, Event.view, missing]; rfl
  have bodyless : withBody e (indexedName name i) v = e :=
    withBody_of_indexed (congrArg Prod.snd parts) e v
  unfold IndexStored
  rw [eventBaseAddHeader_new (fun _ => by rw [parts, missing]), parts, bodyless]
  by_cases tagged : arrayTag <:+: v
  · refine iff_of_false (fun stored => ?_) (by simp [tagged])
    exact addNew_split_not_read_back flags plain tagged inside stack i stored.1
  · have view : (addNew e stack name v).view name = some (View.new stack v) := by
      rw [addNew_view (fun piece _ => eventBaseAddHeader_view_pushed plain piece) flags.wf stack
        filled, if_neg (mt (strstr_isSome _ _).mp tagged), flags.uniq]
      simp
    have read : eventGetHeaderIdx (addNew e stack name v) name i =
        (View.new stack v).array[i]? := by
      rw [eventGetHeaderIdx_eq, view]
      exact if_pos (by omega)
    rw [read, count]
    cases pushes : stack.pushes with
    | false => simp [View.new, pushes]
    | true =>
      cases i with
      | zero => simp [View.new, pushes, tagged]
      | succ i => simp [View.new, pushes]

theorem stored_index_read_back (flags : Flagged e) (plain : '[' ∉ name) (filled : v ≠ [])
    (inside : ¬ arrayTag <+: v) (stack : Stack) (small : i ≤ 4000) :
    IndexStored e (eventAddHeaderString e stack (indexedName name i) (some v)) name i v ↔
      (eventGetHeaderPtr e name).isSome ∨ i = 0 ∧ stack.pushes = true ∧ ¬ arrayTag <:+: v := by
  show IndexStored e (eventBaseAddHeader e stack (indexedName name i) v) name i v ↔ _
  cases found : eventGetHeaderPtr e name with
  | some h => exact iff_of_true (stored_index_present found plain stack small) (Or.inl rfl)
  | none =>
    rw [stored_index_missing flags found plain filled inside stack small]
    simp

end Index

/-- **Store and load.** On a well-formed event with unique headers, for a non-empty text that does
not start with `ARRAY::`: under a plain name it is read back exactly when it does not contain
`ARRAY::` at all; under `name[i]` it is read back at `i`, with the other elements kept, exactly when
the header exists already, or the text has no `ARRAY::` and is pushed to index 0. -/
theorem header_store_load_iff {e : Event} (flags : Flagged e) {name v : Text} (plain : '[' ∉ name)
    (filled : v ≠ []) (inside : ¬ arrayTag <+: v) :
    (eventGetHeader (eventAddHeaderString e Stack.bottom name (some v)) name = some v ↔
        ¬ arrayTag <:+: v) ∧
      ∀ (stack : Stack) (i : Nat), i ≤ 4000 →
        (IndexStored e (eventAddHeaderString e stack (indexedName name i) (some v)) name i v ↔
          (eventGetHeaderPtr e name).isSome ∨ i = 0 ∧ stack.pushes = true ∧ ¬ arrayTag <:+: v) :=
  ⟨stored_read_back flags plain filled inside,
    fun stack _ small => stored_index_read_back flags plain filled inside stack small⟩

/-- A channel's variable store with no variable is such an event. -/
theorem header_store_load_empty_store :
    Flagged (eventCreatePlain .channelData) ∧
      eventGetHeader (eventAddHeaderString (eventCreatePlain .channelData) Stack.bottom ['a']
        (some ['x'])) ['a'] = some ['x'] := by
  have flags : Flagged (eventCreatePlain .channelData) :=
    (UniqStart.set _ (.createPlain .channelData)).flagged
  have plain : '[' ∉ (['a'] : Text) := by decide
  have filled : (['x'] : Text) ≠ [] := by decide
  have inside : ¬ arrayTag <+: (['x'] : Text) := by decide
  exact ⟨flags, (header_store_load_iff flags plain filled inside).1.mpr (by decide)⟩

/-- **The two ways a stored text is lost**: `xARRAY::y` comes back as `:y`, and `a[0] = x` on an
event without `a` makes a header with no element 0. -/
theorem stored_text_lost :
    Flagged (eventCreatePlain .channelData) ∧
      eventGetHeader (eventAddHeaderString (eventCreatePlain .channelData) Stack.bottom ['a']
        (some "xARRAY::y".toList)) ['a'] = some ":y".toList ∧
      eventGetHeaderIdx (eventAddHeaderString (eventCreatePlain .channelData) Stack.bottom
        (indexedName ['a'] 0) (some ['x'])) ['a'] 0 = none :=
  ⟨(UniqStart.set _ (.createPlain .channelData)).flagged, by decide +kernel, by decide +kernel⟩

end FreeSwitch
