/-
**How the expanders read their input.**

`switch_channel_expand_variables_check` and `switch_event_expand_headers_check` share the loop that
walks over the input; they differ only in the value they put for a reference. What the walk finds
does not depend on those values, so it is a function of the input alone.

* `nextToken`: the head of the loop, where escapes and references are recognised;
* `tailToken`: the tail of the loop, which a pass that substitutes a reference runs into: it copies
  the byte behind the reference, whatever it is, unless it is a `$`.
-/

import FreeSwitch.Lib.CString

namespace FreeSwitch

open CString

/-! ### The two tests in front of the loop -/

/-- `switch_string_var_check_const`; `dol` says that a `$`, and nothing but backslashes, stands
before the text. -/
def stringVarCheckConst (dol : Bool) : Text → Bool
  | [] => false
  | c :: rest =>
    if c = '$' then stringVarCheckConst true rest
    else if dol && c = '{' then true
    else stringVarCheckConst (dol && c = '\\') rest

def stringHasEscapedData : Text → Bool
  | '\\' :: c :: rest =>
    c ∈ ['\\', 'n', 's', 't', '\x27'] || stringHasEscapedData (c :: rest)
  | _ :: rest => stringHasEscapedData rest
  | [] => false

/-! ### References -/

/-- The text of a reference behind its `{`, the brackets that stay open (none when it is closed),
and the text behind it. `first` says that this is the first byte, whose `{` is not counted. -/
def refBody (first : Bool) (br : Nat) : Text → Text × Nat × Text
  | [] => ([], br, [])
  | c :: rest =>
    if br = 1 ∧ c = '}' then ([], 0, rest)
    else
      let inner := refBody false
        (if !first && c = '{' then br + 1 else if 1 < br && c = '}' then br - 1 else br) rest
      (c :: inner.1, inner.2)

inductive Token where
  | copy (c : Char)
  | raw (c : Char)
  | skip
  | room
  /-- Put a value for `${body}`, or for `$${body}` when `global`; `br` brackets stay open. -/
  | ref (global : Bool) (body : Text) (br : Nat)
  deriving DecidableEq, Repr

def refToken (global : Bool) (text : Text) : Token × Text :=
  let inner := refBody true 1 text
  (.ref global inner.1 inner.2.1, inner.2.2)

def nextToken : Text → Option (Token × Text)
  | [] => none
  | c :: rest =>
    some <|
      if c = '\\' then
        match rest with
        | '$' :: '$' :: rest => (.raw '$', rest)
        | '$' :: rest => (.raw '$', rest)
        | '\x27' :: rest => (.skip, rest)
        | '\\' :: rest => (.raw '\\', rest)
        | rest => (.copy '\\', rest)
      else if c = '$' then
        match rest with
        | '$' :: '{' :: rest => refToken true rest
        | '$' :: rest => (.raw '$', rest)
        | '{' :: rest => refToken false rest
        | rest => (.raw '$', rest)
      else (.copy c, rest)

def tailToken : Text → Token × Text
  | [] => (.copy '\x00', [])
  | c :: rest => if c = '$' then (.room, c :: rest) else (.copy c, rest)

theorem refBody_length (first : Bool) (br : Nat) (text : Text) :
    (refBody first br text).2.2.length ≤ text.length := by
  induction text generalizing first br with
  | nil => exact Nat.le_refl _
  | cons c rest ih =>
    unfold refBody
    split
    · exact Nat.le_succ _
    · exact Nat.le_succ_of_le (ih _ _)

theorem nextToken_length {text rest : Text} {token : Token}
    (found : nextToken text = some (token, rest)) : rest.length < text.length := by
  cases text with
  | nil => exact absurd found (by simp [nextToken])
  | cons c tail =>
    have found := Option.some.inj found
    have shorter := fun text => refBody_length true 1 text
    split_ifs at found with backslash dollar
    · split at found <;>
        · obtain ⟨-, rfl⟩ := Prod.mk.inj found
          simp only [List.length_cons]
          omega
    · split at found <;>
        · obtain ⟨-, rfl⟩ := Prod.mk.inj found
          simp only [List.length_cons]
          first | omega | exact Nat.lt_of_le_of_lt (shorter _) (by omega)
    · obtain ⟨-, rfl⟩ := Prod.mk.inj found
      exact Nat.lt_succ_self _

theorem tailToken_length (text : Text) : (tailToken text).2.length ≤ text.length := by
  cases text with
  | nil => exact Nat.le_refl _
  | cons c rest =>
    by_cases dollar : c = '$' <;> simp [tailToken, dollar]

def Token.isRef : Token → Bool
  | ref _ _ _ => true
  | _ => false

/-- A pass: the text in front of it, what it does, and the text behind. -/
structure Pass where
  before : Text
  token : Token
  after : Text
  deriving DecidableEq, Repr

/-- A text without its ending `rest`. -/
def upTo (text rest : Text) : Text := text.take (text.length - rest.length)

/-- **The loop**: its passes over `text`, with `before` in front of it. -/
def scan (before text : Text) : List Pass :=
  match _found : nextToken text with
  | none => []
  | some (token, rest) =>
    let reached := before ++ upTo text rest
    ⟨before, token, rest⟩ ::
      if token.isRef then
        let tail := tailToken rest
        ⟨reached, tail.1, tail.2⟩ :: scan (reached ++ upTo rest tail.2) tail.2
      else scan reached rest
termination_by text.length
decreasing_by
  · exact Nat.lt_of_le_of_lt (tailToken_length rest) (nextToken_length _found)
  · exact nextToken_length _found

def tokens (text : Text) : List Token := (scan [] text).map Pass.token

end FreeSwitch
