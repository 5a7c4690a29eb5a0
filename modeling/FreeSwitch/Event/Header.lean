/-
**Event headers, from `switch_event.c`.**

An event keeps its headers in a linked list with a tail pointer (`Chain`). A header is a scalar
(`idx = 0`) or an array, and then `value` is meant to be the rendering of the array (`render`):
the one element, or `ARRAY::` and the elements joined with `|:`.

`eventBaseAddHeader` is `switch_event_base_add_header`, with its branches in the order of the
source; the pieces it is made of are

* `addIndexed`: a `name[i]` on a header that exists: replace in place, or grow and redraw;
* `pushOnto`: `SWITCH_STACK_PUSH` and `SWITCH_STACK_UNSHIFT`, with the promotion of a scalar;
* `linkHeader`: the new header at the top or the bottom of the list;
* `arrayPieces`: the elements `switch_event_add_array` pushes one by one, each through the whole
  function again.
-/

import FreeSwitch.Event.Types
import FreeSwitch.Lib.Chain

namespace FreeSwitch

open CString

/-- `switch_event_header_t`; `idx` is the length of `array`. -/
structure Header where
  name : Text
  value : Option Text
  array : List Text
  hash : Nat
  deriving DecidableEq, Repr

/-- `switch_event_t`, as far as the header functions read and write it. -/
structure Event where
  eventId : EventType
  subclassName : Option Text
  headers : Chain Header
  body : Option Text
  uniqHeaders : Bool
  deriving DecidableEq, Repr

/-- The bits of `switch_stack_t` that the header functions test. -/
structure Stack where
  top : Bool
  unshift : Bool
  push : Bool
  deriving DecidableEq, Repr

namespace Stack

/-- `SWITCH_STACK_BOTTOM` sets no tested bit. -/
def bottom : Stack := ⟨false, false, false⟩

/-- `SWITCH_STACK_PUSH`. -/
def pushed : Stack := ⟨false, false, true⟩

/-- `stack & (SWITCH_STACK_PUSH | SWITCH_STACK_UNSHIFT)`. -/
def pushes (stack : Stack) : Bool := stack.push || stack.unshift

end Stack

namespace Header

def idx (h : Header) : Nat := h.array.length

/-- The test `(!hp->hash || hash == hp->hash) && !strcasecmp(hp->name, name)`. -/
def hasName (name : Text) (h : Header) : Bool :=
  (h.hash == 0 || ciHash name == h.hash) && ciEq h.name name

end Header

def arrayTag : Text := "ARRAY::"

def arraySep : Text := "|:"

/-- A header's array as the text in `value`. -/
def render : List Text → Text
  | [a] => a
  | array => arrayTag ++ arraySep.intercalate array

/-- The `redraw` label: write the array into `value`; an empty one leaves it alone. -/
def redraw (h : Header) : Header :=
  match h.array with
  | [] => h
  | array => { h with value := some (render array) }

/-! ### Reading -/

def Event.list (e : Event) : List Header := e.headers.contents

variable (e : Event)

def eventGetHeaderPtr (name : Text) : Option Header := e.list.find? (Header.hasName name)

def eventGetHeaderIdx (name : Text) (idx : Int) : Option Text :=
  match eventGetHeaderPtr e name with
  | some hp => if idx > -1 then hp.array[idx.toNat]? else hp.value
  | none => if name = "_body" then e.body else none

def eventGetHeader (name : Text) : Option Text := eventGetHeaderIdx e name (-1)

/-! ### Deleting and renaming -/

/-- The headers `switch_event_del_header_val` unlinks. -/
def deletes (name : Text) (val : Option Text) (h : Header) : Bool :=
  h.hasName name && (val.getD [] == [] || h.value == val)

/-- `switch_event_del_header_val`, with its status as a flag. -/
def eventDelHeaderVal (name : Text) (val : Option Text) : Event × Bool :=
  ({ e with headers := e.headers.delete (deletes name val) }, e.list.any (deletes name val))

def eventDelHeader (name : Text) : Event := (eventDelHeaderVal e name none).1

def renameHeader (name newName : Text) (h : Header) : Header :=
  if h.hasName name then { h with name := newName, hash := ciHash newName } else h

/-- `switch_event_rename_header`, with its status as a flag. -/
def eventRenameHeader (name newName : Text) : Event × Bool :=
  ({ e with headers := e.headers.mapData (renameHeader name newName) },
    e.list.any (Header.hasName name))

/-! ### Adding -/

/-- `new_header`: a zeroed header with its name. -/
def newHeader (name : Text) : Header := ⟨name, none, [], 0⟩

/-- Stack an element on a header: a scalar becomes the first element, `SWITCH_STACK_PUSH` goes
before `SWITCH_STACK_UNSHIFT`, and the value is redrawn. -/
def pushOnto (stack : Stack) (data : Text) (h : Header) : Header :=
  let promoted : Header :=
    match h.value, h.array with
    | some v, [] => { h with value := none, array := [v] }
    | _, _ => h
  redraw { promoted with
    array := if stack.push then promoted.array ++ [data] else data :: promoted.array }

/-- `name[i]` on a header: an element below `idx` is replaced and `value` left; a higher index grows
the array with empty elements and redraws. -/
def addIndexed (index : Nat) (data : Text) (h : Header) : Header :=
  if index < h.idx then { h with array := h.array.set index data }
  else redraw { h with array := h.array ++ List.replicate (index - h.idx) [] ++ [data] }

def linkHeader (stack : Stack) (h : Header) : Event :=
  let hashed : Header := { h with hash := ciHash h.name }
  { e with headers := if stack.top then e.headers.pushTop hashed else e.headers.pushBottom hashed }

/-- The elements of `switch_event_add_array`: the text behind seven bytes, cut at every `|:`; a text
of less than eight has none. -/
def arrayPieces (val : Text) : List Text :=
  if val.length < 8 then []
  else separateStr '|' [':'] (occurrences '|' [':'] (val.drop 7) + 1) (val.drop 7)

theorem arrayPieces_length {val piece : Text} (member : piece ∈ arrayPieces val) :
    piece.length < val.length := by
  unfold arrayPieces at member
  split at member
  · simp at member
  · rw [separateStr_eq] at member
    have := splitStr_length piece member
    rw [List.length_drop] at this
    omega

/-- The header `_body` is also the body (`switch_event_set_body`). -/
def withBody (headerName data : Text) : Event :=
  if headerName = "_body" then { e with body := some data } else e

def eventBaseAddHeader (e : Event) (stack : Stack) (headerName data : Text) : Event :=
  let e := withBody e headerName data
  let name := (cut '[' headerName).1
  let indexText := (cut '[' headerName).2
  match if indexText.isSome || stack.pushes then eventGetHeaderPtr e name else none with
  | some _ =>
    match indexText with
    | some text =>
      if atoi text > -1 ∧ atoi text ≤ 4000 then
        { e with
          headers := e.headers.modify (Header.hasName name) (addIndexed (atoi text).toNat data) }
      else e
    | none => { e with headers := e.headers.modify (Header.hasName name) (pushOnto stack data) }
  | none =>
    if data = [] then eventDelHeader e name
    else
      let e := if e.uniqHeaders then eventDelHeader e name else e
      if (strstr arrayTag data).isSome then
        (arrayPieces data).attach.foldl
          (fun e piece => eventBaseAddHeader e Stack.pushed name piece.val) e
      else if stack.pushes then linkHeader e stack (pushOnto stack data (newHeader name))
      else linkHeader e stack { newHeader name with value := some data }
termination_by data.length
decreasing_by exact arrayPieces_length piece.property

/-- `switch_event_add_header_string`: a missing value is refused. -/
def eventAddHeaderString (stack : Stack) (name : Text) (data : Option Text) : Event :=
  match data with
  | some data => eventBaseAddHeader e stack name data
  | none => e

end FreeSwitch
