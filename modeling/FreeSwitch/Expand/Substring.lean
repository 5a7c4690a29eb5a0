/-
**Substrings of a value.**

`${name:offset:length}` in `switch_event_expand_headers_check` moves to the offset without a look at
the length of the value, and duplicates a value without a look at whether there is one. The channel
version does look.

* `substring_inside_iff`: when the event version yields what the channel version yields.
-/

import FreeSwitch.Expand.Escape
import FreeSwitch.Expand.Room

namespace FreeSwitch

open CString List

def Ordinary (c : Char) : Prop :=
  c ∉ ['$', '\\', '{', '}', ' ', '(', ':', '[']

instance (c : Char) : Decidable (Ordinary c) := inferInstanceAs (Decidable (_ ∉ _))

/-- The text between the brackets of `${name:offset:length}`. -/
def substringBody (name : Text) (o l : Int32) : Text :=
  name ++ ':' :: (intText o.toInt ++ ':' :: intText l.toInt)

/-- `${name:offset:length}`. -/
def substringReference (name : Text) (o l : Int32) : Text :=
  '$' :: '{' :: (substringBody name o l ++ ['}'])

/-! ### The loop over a reference -/

theorem refBody_plain {body : Text} (plain : ∀ c ∈ body, c ≠ '{' ∧ c ≠ '}') (first : Bool) :
    refBody first 1 (body ++ ['}']) = (body, 0, []) := by
  induction body generalizing first with
  | nil => rfl
  | cons c body ih =>
    obtain ⟨notOpen, notClose⟩ := plain c mem_cons_self
    have later := ih (fun c member => plain c (.tail _ member)) false
    simp [refBody, notOpen, notClose, later]

/-- **The loop over one reference**: its value, and the NUL that ends the input. -/
theorem tokens_reference {body : Text} (plain : ∀ c ∈ body, c ≠ '{' ∧ c ≠ '}') :
    tokens ('$' :: '{' :: (body ++ ['}'])) = [.ref false body 0, .copy '\x00'] := by
  have found : nextToken (('$' :: '{' :: (body ++ ['}'])) ++ []) = some (.ref false body 0, []) := by
    have ref : nextToken ('$' :: '{' :: (body ++ ['}'])) = some (refToken false (body ++ ['}'])) := rfl
    rw [append_nil, ref, refToken, refBody_plain plain]
  have passes := scan_ref found rfl []
  rw [append_nil] at passes
  rw [tokens, passes]
  simp [tailToken]

theorem stringVarCheckConst_plain {text : Text} (plain : ∀ c ∈ text, c ≠ '$' ∧ c ≠ '\\') :
    stringVarCheckConst false text = false := by
  induction text with
  | nil => rfl
  | cons c text ih =>
    have apart := plain c mem_cons_self
    simp [stringVarCheckConst, apart.1, ih fun c member => plain c (.tail _ member)]

theorem stringHasEscapedData_plain {text : Text} (plain : ∀ c ∈ text, c ≠ '$' ∧ c ≠ '\\') :
    stringHasEscapedData text = false := by
  induction text with
  | nil => rfl
  | cons c text ih =>
    have later := ih fun c member => plain c (.tail _ member)
    unfold stringHasEscapedData
    split
    · next same => exact absurd (List.cons.inj same).1 (plain c mem_cons_self).2
    · next same => exact (List.cons.inj same).2 ▸ later
    · rfl

theorem expandWith_plain {text : Text} (plain : ∀ c ∈ text, c ≠ '$' ∧ c ≠ '\\')
    (reference : Bool → Text → Nat → Substitution) : expandWith reference text = ⟨text, [], false⟩ := by
  unfold expandWith
  rw [if_pos]
  simp [stringVarCheckConst_plain plain, stringHasEscapedData_plain plain]

/-! ### The parts of the reference -/

section Reference

variable {name : Text} (plain : ∀ c ∈ name, Ordinary c) (o l : Int32)

include plain

theorem substringBody_plain {c : Char} (member : c ∈ substringBody name o l) :
    c ∉ ['$', '\\', '{', '}', ' ', '('] := by
  have number : ∀ i, c ∈ intText i → c ∉ ['$', '\\', '{', '}', ' ', '('] := by
    intro i there
    rcases mem_intText there with rfl | digit
    · decide
    · intro special
      simp only [mem_cons, not_mem_nil, or_false] at special
      rcases special with rfl | rfl | rfl | rfl | rfl | rfl <;> exact absurd digit (by decide)
  simp only [substringBody, mem_append, mem_cons] at member
  rcases member with there | rfl | there | rfl | there
  · have ordinary := plain c there
    simp only [Ordinary, mem_cons, not_or] at ordinary
    simp only [mem_cons, not_or]
    tauto
  · decide
  · exact number _ there
  · decide
  · exact number _ there

theorem varName_substringBody :
    varName (substringBody name o l) = ⟨name, o.toInt, l.toInt, -1⟩ := by
  have noColon : ':' ∉ name := fun member => absurd (plain _ member) (by decide)
  have noBracket : '[' ∉ name := fun member => absurd (plain _ member) (by decide)
  have numeral : ':' ∉ intText o.toInt := by
    intro member
    rcases mem_intText member with same | digit
    · exact absurd same (by decide)
    · exact absurd digit (by decide)
  have first : atoi (intText o.toInt ++ ':' :: intText l.toInt) = o.toInt :=
    atoi_intText _ o.le_toInt o.toInt_lt (by simp)
  have second : atoi (intText l.toInt) = l.toInt := by
    have stop : ∀ c ∈ ([] : Text).head?, c.isDigit = false := by simp
    have read := atoi_intText l.toInt l.le_toInt l.toInt_lt stop
    rwa [append_nil] at read
  unfold varName substringBody
  simp only [cut_append_cons noColon, cut_append_cons numeral, cut_of_not_mem noBracket, first,
    second]

theorem apiCall_substringBody : apiCall 0 (substringBody name o l) = none := by
  have all : ∀ c ∈ substringBody name o l, (c != ' ' && c != '(') = true := by
    intro c member
    have apart := substringBody_plain plain o l member
    simp only [mem_cons, not_or] at apart
    simp [apart]
  unfold apiCall
  rw [dropWhile_eq_nil_iff.mpr all]

end Reference

/-! ### The two versions -/

/-- **The cut of the event version** is that of the channel version, unless the offset is behind the
end of the value or there is none. -/
theorem eventSubstring_eq (beyond : Text → Nat → Text) (value : Option Text) (offset ooffset : Int)
    (there : value.isSome ∨ (offset = 0 ∧ ooffset = 0))
    (inside : ∀ v ∈ value, offset ≤ v.length) :
    eventSubstring beyond value offset ooffset =
      .inside (value.map fun v => channelSubstring v offset ooffset) := by
  cases value with
  | none =>
    obtain ⟨rfl, rfl⟩ := there.resolve_left (by simp)
    rfl
  | some v =>
    have reach : ¬ (v.length : Int) < offset := not_lt.mpr (inside v rfl)
    simp [eventSubstring, channelSubstring, reach]

theorem string_before_nul (bytes : Text) :
    (bytes ++ ['\x00']).takeWhile (· != '\x00') = bytes.takeWhile (· != '\x00') := by
  induction bytes with
  | nil => rfl
  | cons c bytes ih => simp [takeWhile_cons, ih]

def EventPiece.put : EventPiece → Substitution
  | .inside value => ⟨value, [], false⟩
  | .outside bytes => ⟨some bytes, [], false⟩
  | .absent => ⟨none, [], true⟩

section Expansion

variable (settings : ExpandSettings) (e : Event) (beyond : Text → Nat → Text) {name : Text}
  (plain : ∀ c ∈ name, Ordinary c) (o l : Int32) {value : Option Text}
  (header : eventGetHeader e name = value)
  (absent : value = none →
    settings.denies name = false ∧ eventGetHeader settings.globals name = none)

include plain header absent

theorem eventReference_substring :
    eventReference settings e beyond (eventExpand settings e beyond 100) false
      (substringBody name o l) 0 = (eventSubstring beyond value o.toInt l.toInt).put := by
  have body : eventExpand settings e beyond 100 (substringBody name o l) =
      ⟨substringBody name o l, [], false⟩ := by
    refine expandWith_plain (fun c member => ?_) _
    have apart := substringBody_plain plain o l member
    simp only [mem_cons, not_or] at apart
    exact ⟨apart.1, apart.2.1⟩
  have found : eventValue settings e (eventExpand settings e beyond 100) false
      ⟨name, o.toInt, l.toInt, -1⟩ = ⟨value, [], false⟩ := by
    have lookup : eventGetHeaderIdx e name (-1) = value := header
    unfold eventValue
    cases value with
    | none =>
      obtain ⟨permitted, noGlobal⟩ := absent rfl
      simp [lookup, permitted, noGlobal]
    | some v => simp [lookup]
  unfold eventReference
  rw [apiCall_substringBody plain]
  simp only [body, varName_substringBody plain, found]
  cases eventSubstring beyond value o.toInt l.toInt <;> rfl

/-- **What the event version makes of a substring reference**, by the piece of the value. -/
theorem eventExpand_substring :
    let x := eventExpandHeadersCheck settings e beyond (substringReference name o l) 0
    let put := (eventSubstring beyond value o.toInt l.toInt).put
    x.crashed = put.crashed ∧
      (put.crashed = false → x.text = (put.value.getD []).takeWhile (· != '\x00')) := by
  intro x put
  have brackets : ∀ c ∈ substringBody name o l, c ≠ '{' ∧ c ≠ '}' := by
    intro c member
    have apart := substringBody_plain plain o l member
    simp only [mem_cons, not_or] at apart
    exact ⟨apart.2.2.1, apart.2.2.2.1⟩
  have loops : stringVarCheckConst false (substringReference name o l) = true :=
    stringVarCheckConst_append false [] _
  have reference := eventReference_substring settings e beyond plain o l header absent
  have call : x = expandWith (eventReference settings e beyond (eventExpand settings e beyond 100))
    (substringReference name o l) := rfl
  have tokens : tokens (substringReference name o l) =
    [.ref false (substringBody name o l) 0, .copy '\x00'] := tokens_reference brackets
  rw [expandWith_loops _ loops] at call
  have done : substitute (eventReference settings e beyond (eventExpand settings e beyond 100))
      (FreeSwitch.tokens (substringReference name o l)) =
      if put.crashed then ([], put.calls, true)
      else ([.value (put.value.getD []), .copy '\x00'], put.calls ++ [], false) := by
    rw [tokens, substitute, reference]
    rfl
  cases survives : put.crashed with
  | true =>
    rw [survives] at done
    exact ⟨by rw [call, done]; rfl, Bool.noConfusion⟩
  | false =>
    rw [survives] at done
    refine ⟨by rw [call, done]; rfl, fun _ => ?_⟩
    rw [call]
    have bytes : (looped _ (substringReference name o l)).pieces = _ := congrArg Prod.fst done
    rw [Expanding.text, Expanding.buffer_data, bytes]
    simpa [Piece.bytes] using string_before_nul (put.value.getD [])

end Expansion

theorem mem_of_mem_channelSubstring {v : Text} {offset ooffset : Int} {c : Char}
    (member : c ∈ channelSubstring v offset ooffset) : c ∈ v := by
  have cutOff : ∀ {t : Text}, c ∈ upToLength t ooffset → c ∈ t := by
    intro t there
    unfold upToLength at there
    split at there
    · exact mem_of_mem_take there
    · exact there
  have tail : ∀ {t : Text}, c ∈ fromOffset t offset → c ∈ t := by
    intro t there
    unfold fromOffset at there
    split_ifs at there
    · exact mem_of_mem_drop there
    · exact mem_of_mem_drop there
    · exact there
  have there := cutOff member
  split at there
  · exact absurd there (by simp)
  · exact tail there

/-- **A substring reference in the event version** survives, reads only bytes of the value of its
header (so that nothing depends on what stands behind it) and yields what the channel version makes
of that value, exactly when there is a value to cut and the offset is not behind its end. -/
theorem substring_inside_iff (settings : ExpandSettings) (e : Event) {name : Text}
    (plain : ∀ c ∈ name, Ordinary c) (o l : Int32) {value : Option Text}
    (header : eventGetHeader e name = value)
    (absent : value = none →
      settings.denies name = false ∧ eventGetHeader settings.globals name = none)
    (ends : ∀ v ∈ value, '\x00' ∉ v) :
    (∀ beyond : Text → Nat → Text,
      let x := eventExpandHeadersCheck settings e beyond (substringReference name o l) 0
      x.crashed = false ∧
        x.text = (value.map fun v => channelSubstring v o.toInt l.toInt).getD []) ↔
    (value.isSome ∨ (o = 0 ∧ l = 0)) ∧ ∀ v ∈ value, o.toInt ≤ v.length := by
  constructor
  · intro always
    obtain ⟨lives, text⟩ := always fun _ _ => ['x']
    obtain ⟨crashed, written⟩ :=
      eventExpand_substring settings e (fun _ _ => ['x']) plain o l header absent
    rw [lives] at crashed
    replace written := written crashed.symm
    rw [text] at written
    cases value with
    | none =>
      refine ⟨.inr ?_, nofun⟩
      by_contra cuts
      have nonzero : o.toInt ≠ 0 ∨ l.toInt ≠ 0 := by
        by_contra both
        rw [not_or, not_not, not_not] at both
        exact cuts ⟨Int32.toInt_inj.mp both.1, Int32.toInt_inj.mp both.2⟩
      rw [eventSubstring, if_pos nonzero] at crashed
      exact Bool.noConfusion crashed
    | some v =>
      refine ⟨.inl rfl, fun v' same => ?_⟩
      obtain rfl := Option.some.inj same
      by_contra behind
      have far : (v.length : Int) < o.toInt := not_le.mp behind
      have uncut : ∀ t : Text, t.length ≤ 1 → upToLength t l.toInt = t := by
        intro t short
        exact if_neg (by omega)
      rw [eventSubstring, if_pos far, uncut _ (by simp)] at written
      simp [EventPiece.put, channelSubstring, far, uncut] at written
  · rintro ⟨there, inside⟩ beyond
    have zero : value.isSome ∨ (o.toInt = 0 ∧ l.toInt = 0) := by
      rcases there with some | ⟨rfl, rfl⟩
      · exact .inl some
      · exact .inr ⟨rfl, rfl⟩
    obtain ⟨crashed, written⟩ := eventExpand_substring settings e beyond plain o l header absent
    rw [eventSubstring_eq beyond value _ _ zero inside] at crashed written
    refine ⟨crashed, (written rfl).trans (takeWhile_eq_self_iff.mpr fun c member => ?_)⟩
    cases value with
    | none => exact absurd member (by simp [EventPiece.put])
    | some v =>
      have there := mem_of_mem_channelSubstring member
      have apart : c ≠ '\x00' := fun same => ends v rfl (same ▸ there)
      simp [apart]

/-- An event with one header, `x`. -/
def headerX (value : Text) : Event :=
  eventAddHeaderString (eventCreatePlain .channelData) Stack.bottom ['x'] (some value)

/-- `${x:1:2}` of `hello`, and `${x:0:0}` without a header `x`. -/
theorem substring_inside_hello :
    (∀ beyond, (eventExpandHeadersCheck permissive (headerX "hello".toList) beyond
      (substringReference ['x'] 1 2) 0).text = "el".toList) ∧
    ∀ beyond, (eventExpandHeadersCheck permissive (eventCreatePlain .channelData) beyond
      (substringReference ['x'] 0 0) 0).crashed = false := by
  have plain : ∀ c ∈ ['x'], Ordinary c := by simp [Ordinary]
  have header : eventGetHeader (headerX "hello".toList) ['x'] = some "hello".toList := by
    decide +kernel
  have nothing : eventGetHeader (eventCreatePlain .channelData) ['x'] = none := rfl
  have present := substring_inside_iff permissive (headerX "hello".toList) plain 1 2 header
    nofun (by decide)
  have absent := substring_inside_iff permissive (eventCreatePlain .channelData) plain 0 0 nothing
    (fun _ => ⟨rfl, rfl⟩) nofun
  have cut : channelSubstring "hello".toList (Int32.toInt 1) (Int32.toInt 2) = "el".toList := by
    decide +kernel
  refine ⟨fun beyond => ?_, fun beyond => (absent.mpr ⟨.inr ⟨rfl, rfl⟩, nofun⟩ beyond).1⟩
  rw [(present.mpr ⟨.inl rfl, by decide +kernel⟩ beyond).2, Option.map_some, cut, Option.getD_some]

/-- **An offset behind the end**, and a cut of nothing: the first reads what stands behind the value,
the second does not survive. The channel version yields the empty string for both. -/
theorem substring_behind_end :
    (eventExpandHeadersCheck permissive (headerX "ab") (fun _ _ => "behind")
      (substringReference ['x'] 5 0) 0).text = "behind" ∧
    (eventExpandHeadersCheck permissive (eventCreatePlain .channelData) (fun _ _ => [])
      (substringReference ['x'] 1 0) 0).crashed = true ∧
    (channelExpandVariablesCheck permissive (oneVariable "ab")
      (substringReference ['x'] 5 0) 0).text = [] := by
  decide +kernel

end FreeSwitch
