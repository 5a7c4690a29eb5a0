/-
**The two expanders.**

`switch_channel_expand_variables_check` (`switch_channel.c`) and `switch_event_expand_headers_check`
(`switch_event.c`). The walk over the input is the one of `scan`; the value that is put for a
reference differs between the two, and so do the bounds of a `${name:offset:length}`.

* `channelExpandVariablesCheck`, `eventExpandHeadersCheck`: the functions themselves. They recurse
  into names, values and arguments, to a depth of one hundred.

Memory does not run out. What stands behind the end of a value is a parameter, `beyond`, and using
the value of an absent header as a string ends the process.
-/

import FreeSwitch.Event.Header
import FreeSwitch.Expand.Scan

namespace FreeSwitch

open CString

/-! ### Permissions -/

/-- A list of permissions: an event, and its flag `EF_DEFAULT_ALLOW`. -/
structure PermissionList where
  event : Event
  defaultAllow : Bool
  deriving DecidableEq, Repr

def eventCheckPermissionList (list : Option PermissionList) (name : Text) : Bool :=
  match list with
  | none => true
  | some list =>
    if list.event.list = [] then list.defaultAllow
    else
      match eventGetHeader list.event name with
      | some value => value.head? != some 'd'
      | none => list.defaultAllow

/-! ### The output buffer -/

/-- The bytes written, the allocation, and whether every write was inside. -/
structure OutBuffer where
  data : Text
  olen : Nat
  inside : Bool
  deriving DecidableEq, Repr

variable (b : OutBuffer)

namespace OutBuffer

/-- `resize(l)`. -/
def resize (l : Nat) : OutBuffer :=
  { b with olen := b.olen + (b.data.length + l + 128) }

/-- The test in front of a write of `l` bytes. -/
def makeRoom (l : Nat) : OutBuffer :=
  if b.olen ≤ b.data.length + l then b.resize l else b

/-- `*c++ = byte`. -/
def put (c : Char) : OutBuffer :=
  { b with data := b.data ++ [c], inside := b.inside && decide (b.data.length < b.olen) }

/-- `strcat(c, sub_val)`, with its terminating NUL. -/
def strcat (value : Text) : OutBuffer :=
  { b with
    data := b.data ++ value
    inside := b.inside && decide (b.data.length + value.length < b.olen) }

end OutBuffer

inductive Piece where
  | copy (c : Char)
  | raw (c : Char)
  | skip
  | room
  | value (text : Text)
  deriving DecidableEq, Repr

def OutBuffer.write (b : OutBuffer) : Piece → OutBuffer
  | .copy c => (b.makeRoom 1).put c
  | .raw c => b.put c
  | .skip => b
  | .room => b.makeRoom 1
  | .value text => if text = [] then b else (b.makeRoom text.length).strcat text

/-- A call that got to its loop: its input, what it wrote, and whether the loop ended. -/
structure Expanding where
  input : Text
  pieces : List Piece
  finished : Bool
  deriving DecidableEq, Repr

/-- The output buffer of a call: `strlen(in) + 1` zeroed bytes, then the writes. -/
def Expanding.buffer (call : Expanding) : OutBuffer :=
  call.pieces.foldl OutBuffer.write ⟨[], call.input.length + 1, true⟩

def Piece.bytes : Piece → Text
  | .copy c | .raw c => [c]
  | .skip | .room => []
  | .value text => text

theorem OutBuffer.makeRoom_data (l : Nat) : (b.makeRoom l).data = b.data := by
  unfold makeRoom
  split <;> rfl

theorem OutBuffer.makeRoom_inside (l : Nat) : (b.makeRoom l).inside = b.inside := by
  unfold makeRoom
  split <;> rfl

theorem OutBuffer.write_data (piece : Piece) : (b.write piece).data = b.data ++ piece.bytes := by
  cases piece with
  | copy c => simp [write, put, Piece.bytes, makeRoom_data]
  | raw c => rfl
  | skip => simp [write, Piece.bytes]
  | room => simp [write, Piece.bytes, makeRoom_data]
  | value text =>
    by_cases empty : text = []
    · simp [write, empty, Piece.bytes]
    · simp [write, empty, strcat, Piece.bytes, makeRoom_data]

theorem Expanding.buffer_data (call : Expanding) :
    call.buffer.data = call.pieces.flatMap Piece.bytes := by
  have fold : ∀ (pieces : List Piece) (b : OutBuffer),
      (pieces.foldl OutBuffer.write b).data = b.data ++ pieces.flatMap Piece.bytes := by
    intro pieces
    induction pieces with
    | nil => intro b; simp
    | cons piece rest ih => intro b; simp [ih, OutBuffer.write_data]
  exact fold call.pieces _

def Expanding.text (call : Expanding) : Text := call.buffer.data.takeWhile (· != '\x00')

/-- What an expander returns, and the calls that got to the loop, the outermost last; `crashed` if
the process does not survive. -/
structure Expansion where
  text : Text
  calls : List Expanding
  crashed : Bool
  deriving DecidableEq, Repr

/-! ### The loop -/

structure Substitution where
  value : Option Text
  calls : List Expanding
  crashed : Bool
  deriving DecidableEq, Repr

def substitute (reference : Bool → Text → Nat → Substitution) :
    List Token → List Piece × List Expanding × Bool
  | [] => ([], [], false)
  | .copy c :: rest =>
    let later := substitute reference rest
    (.copy c :: later.1, later.2)
  | .raw c :: rest =>
    let later := substitute reference rest
    (.raw c :: later.1, later.2)
  | .skip :: rest =>
    let later := substitute reference rest
    (.skip :: later.1, later.2)
  | .room :: rest =>
    let later := substitute reference rest
    (.room :: later.1, later.2)
  | .ref global body br :: rest =>
    let put := reference global body br
    if put.crashed then ([], put.calls, true)
    else
      let later := substitute reference rest
      (.value (put.value.getD []) :: later.1, put.calls ++ later.2.1, later.2.2)

variable (reference : Bool → Text → Nat → Substitution)

theorem substitute_append {front : List Token} (survives : (substitute reference front).2.2 = false)
    (back : List Token) :
    substitute reference (front ++ back) =
      ((substitute reference front).1 ++ (substitute reference back).1,
        (substitute reference front).2.1 ++ (substitute reference back).2.1,
        (substitute reference back).2.2) := by
  induction front with
  | nil => rfl
  | cons token front ih =>
    cases token with
    | ref global body br =>
      simp only [List.cons_append, substitute] at survives ⊢
      split at survives
      · exact Bool.noConfusion survives
      · next lives => simp [lives, ih survives]
    | _ =>
      simp only [List.cons_append, substitute] at survives ⊢
      simp [ih survives]

theorem substitute_survives {front back : List Token}
    (survives : (substitute reference (front ++ back)).2.2 = false) :
    (substitute reference front).2.2 = false := by
  induction front with
  | nil => rfl
  | cons token front ih =>
    cases token with
    | ref global body br =>
      simp only [List.cons_append, substitute] at survives ⊢
      split at survives
      · exact Bool.noConfusion survives
      · next lives => simpa [lives] using ih survives
    | _ => exact ih survives

/-- One call of an expander: what it returns for an input without references or escapes, and its
loop for any other. -/
def expandWith (input : Text) : Expansion :=
  if input = [] ∨ !(stringVarCheckConst false input || stringHasEscapedData input) then
    ⟨input, [], false⟩
  else
    let (pieces, calls, crashed) := substitute reference (tokens input)
    let call : Expanding := ⟨input, pieces, !crashed⟩
    ⟨call.text, calls ++ [call], crashed⟩

def looped (input : Text) : Expanding :=
  ⟨input, (substitute reference (tokens input)).1, !(substitute reference (tokens input)).2.2⟩

theorem expandWith_loops {input : Text} (loops : stringVarCheckConst false input = true) :
    expandWith reference input =
      ⟨(looped reference input).text,
        (substitute reference (tokens input)).2.1 ++ [looped reference input],
        (substitute reference (tokens input)).2.2⟩ := by
  have some : input ≠ [] := by
    rintro rfl
    exact Bool.noConfusion loops
  unfold expandWith
  rw [if_neg (by simp [some, loops])]
  rfl

/-! ### Names and arguments -/

def closeArgs (br : Nat) : Text → Text
  | [] => []
  | c :: rest =>
    if c = '(' then c :: closeArgs (br + 1) rest
    else if 1 < br ∧ c = ')' then c :: closeArgs (br - 1) rest
    else if br = 1 ∧ c = ')' then []
    else c :: closeArgs br rest

/-- A reference with a blank or a bracket is an API call; `br` is what stayed open of it. -/
def apiCall (br : Nat) (body : Text) : Option (Text × Text) :=
  match body.dropWhile (fun c => c != ' ' && c != '(') with
  | [] => none
  | c :: rest =>
    some (body.takeWhile (fun c => c != ' ' && c != '('), closeArgs (if c = '(' then 1 else br) rest)

structure VarName where
  name : Text
  offset : Int
  ooffset : Int
  idx : Int
  deriving DecidableEq, Repr

/-- `name[idx]:offset:ooffset`. -/
def varName (text : Text) : VarName :=
  let name := (cut ':' text).1
  let offsets :=
    match (cut ':' text).2 with
    | none => (0, 0)
    | some rest => (atoi rest, match (cut ':' rest).2 with | none => 0 | some rest => atoi rest)
  match (cut '[' name).2 with
  | some index =>
    if ']' ∈ index then ⟨(cut '[' name).1, offsets.1, offsets.2, atoi index⟩
    else ⟨name, offsets.1, offsets.2, -1⟩
  | none => ⟨name, offsets.1, offsets.2, -1⟩

/-! ### Substrings -/

def fromOffset (value : Text) (offset : Int) : Text :=
  if 0 ≤ offset then value.drop offset.toNat
  else if offset.natAbs ≤ value.length then value.drop (value.length - offset.natAbs)
  else value

/-- The cut at `ooffset`. -/
def upToLength (value : Text) (ooffset : Int) : Text :=
  if 0 < ooffset ∧ ooffset.toNat < value.length then value.take ooffset.toNat else value

/-- The channel version's substring: nothing is left of a value that ends before `offset`. -/
def channelSubstring (value : Text) (offset ooffset : Int) : Text :=
  upToLength (if (value.length : Int) < offset then [] else fromOffset value offset) ooffset

inductive EventPiece where
  /-- The value, and `none` for an absent one. -/
  | inside (value : Option Text)
  | outside (bytes : Text)
  /-- `strdup` of an absent value. -/
  | absent
  deriving DecidableEq, Repr

/-- The event version's substring; `beyond` is the string so many bytes behind the end of a value.
-/
def eventSubstring (beyond : Text → Nat → Text) (value : Option Text) (offset ooffset : Int) :
    EventPiece :=
  match value with
  | none => if offset ≠ 0 ∨ ooffset ≠ 0 then .absent else .inside none
  | some value =>
    if (value.length : Int) < offset then
      .outside (upToLength (beyond value (offset.toNat - value.length)) ooffset)
    else .inside (some (upToLength (fromOffset value offset) ooffset))

/-! ### What the expanders read -/

/-- What both expanders are called with, besides the channel or the event. -/
structure ExpandSettings where
  varList : Option PermissionList
  apiList : Option PermissionList
  /-- The flag `SCF_API_EXPANSION`. -/
  apiExpansion : Bool
  /-- `switch_api_execute`: the text written to the stream when it succeeds. -/
  apiExecute : Text → Text → Option Text
  /-- `runtime.global_vars`. -/
  globals : Event

/-- `switch_caller_get_field_by_name` of a profile and of those behind it. -/
structure CallerProfile where
  field : Text → Option Text
  originator : Option (Text → Option Text)
  originatee : Option (Text → Option Text)

/-- What `switch_channel_get_variable_dup` reads; `own` is `channel->variables`. -/
structure ChannelVariables where
  scopeVariables : List Event
  own : Option Event
  profile : Option CallerProfile

def profileFor (profile : Option CallerProfile) (name : Text) :
    Option (Text → Option Text) × Text :=
  match profile with
  | none => (none, name)
  | some profile =>
    if "aleg_".toList.isPrefixOf name then (profile.originator, name.drop 5)
    else if "bleg_".toList.isPrefixOf name then (profile.originatee, name.drop 5)
    else (some profile.field, name)

def channelGetVariableDup (globals : Event) (ch : ChannelVariables) (name : Text) (idx : Int) :
    Option Text :=
  (ch.scopeVariables.findSome? (eventGetHeaderIdx · name idx)).or <|
    (ch.own.bind (eventGetHeaderIdx · name idx)).or <|
      let (field, name) := profileFor ch.profile name
      (field.bind (· name)).or (eventGetHeader globals name)

/-! ### References -/

def variableDenied : Text := "<Variable Expansion Permission Denied>"

variable (settings : ExpandSettings)

/-- `var_list && !switch_event_check_permission_list(var_list, name)`. -/
def ExpandSettings.denies (name : Text) : Bool :=
  !eventCheckPermissionList settings.varList name

/-- The name and the argument are expanded, and the call is made if permitted. -/
def apiReference (denied : Text) (expand : Text → Expansion) (name args : Text) : Substitution :=
  let name := expand name
  let args := expand args
  if name.crashed then ⟨none, name.calls, true⟩
  else
    ⟨if !settings.apiExpansion || !eventCheckPermissionList settings.apiList name.text then
        some denied
      else settings.apiExecute name.text args.text,
      name.calls ++ args.calls, args.crashed⟩

def channelReference (ch : ChannelVariables) (expand : Text → Expansion) (body : Text) (br : Nat) :
    Substitution :=
  match apiCall br body with
  | some (name, args) =>
    apiReference settings "<API Execute Permission Denied>" expand name args
  | none =>
    let expanded := expand body
    let var := varName expanded.text
    match channelGetVariableDup settings.globals ch var.name var.idx with
    | none => ⟨none, expanded.calls, expanded.crashed⟩
    | some value =>
      let value := expand (if settings.denies var.name then variableDenied else value)
      ⟨some (channelSubstring value.text var.offset var.ooffset),
        expanded.calls ++ value.calls, expanded.crashed || value.crashed⟩

/-- What the event version finds for a name: a header, or a global variable, which is expanded. -/
def eventValue (e : Event) (expand : Text → Expansion) (global : Bool) (var : VarName) :
    Substitution :=
  match if global then none else eventGetHeaderIdx e var.name var.idx with
  | some value => ⟨some value, [], false⟩
  | none =>
    match if settings.denies var.name then some variableDenied
        else eventGetHeader settings.globals var.name with
    | none => ⟨none, [], false⟩
    | some value =>
      let value := expand value
      ⟨some value.text, value.calls, value.crashed⟩

def eventReference (e : Event) (beyond : Text → Nat → Text) (expand : Text → Expansion)
    (global : Bool) (body : Text) (br : Nat) : Substitution :=
  match apiCall br body with
  | some (name, args) =>
    apiReference settings "<API execute Permission Denied>" expand name args
  | none =>
    let expanded := expand body
    if expanded.crashed then ⟨none, expanded.calls, true⟩
    else
      let var := varName expanded.text
      let found := eventValue settings e expand global var
      let calls := expanded.calls ++ found.calls
      if found.crashed then ⟨none, calls, true⟩
      else
        match eventSubstring beyond found.value var.offset var.ooffset with
        | .inside value => ⟨value, calls, false⟩
        | .outside bytes => ⟨some bytes, calls, false⟩
        | .absent => ⟨none, calls, true⟩

/-! ### The functions -/

/-- The channel version with `left` more calls before `recur` is over one hundred. -/
def channelExpand (settings : ExpandSettings) (ch : ChannelVariables) : Nat → Text → Expansion
  | 0, input => ⟨input, [], false⟩
  | left + 1, input =>
    expandWith (fun _ => channelReference settings ch (channelExpand settings ch left)) input

def channelExpandVariablesCheck (ch : ChannelVariables) (input : Text) (recur : Nat) :
    Expansion := channelExpand settings ch (101 - recur) input

/-- The event version with `left` more calls before `recur` is over one hundred. -/
def eventExpand (settings : ExpandSettings) (e : Event) (beyond : Text → Nat → Text) :
    Nat → Text → Expansion
  | 0, input => ⟨input, [], false⟩
  | left + 1, input =>
    expandWith (eventReference settings e beyond (eventExpand settings e beyond left)) input

def eventExpandHeadersCheck (e : Event) (beyond : Text → Nat → Text) (input : Text) (recur : Nat) :
    Expansion := eventExpand settings e beyond (101 - recur) input

end FreeSwitch
