/-
**A plain event on the client's side, from `libesl`.**

`esl_recv_event` takes a body of the type `text/event-plain` apart again: `recvPlain` is that part
of it, with libesl's copies of the header functions.

* **`plain_round_trip`**: what comes back of an event that is `PlainSent`.
-/

import FreeSwitch.Event.Render
import FreeSwitch.Event.Serialize

namespace FreeSwitch

open CString List Option Percent

/-! ### libesl's functions -/

/-- `esl_name_event`: libesl's table has all names but two. -/
def eslNameEvent (name : Text) : Option EventType :=
  ((eventNames.filter fun entry => entry.1 ≠ .callDetail ∧ entry.1 ≠ .deviceState).find?
    fun entry => (13 < name.length && ciEq (name.drop 13) entry.2.toList) ||
      ciEq name entry.2.toList).map Prod.fst

/-- `esl_url_decode`: an encoded NUL ends the text. -/
def eslUrlDecode (s : Text) : Text := (decode s).takeWhile (· != '\x00')

/-- `esl_event_add_header_string`, a copy of `switch_event_add_header_string`. -/
def eslEventAddHeaderString (e : Event) (stack : Stack) (name data : Text) : Event :=
  eventAddHeaderString e stack name (some data)

def eslEventAddArray (e : Event) (var val : Text) : Event :=
  (arrayPieces val).foldl (fun e piece => eslEventAddHeaderString e Stack.pushed var piece) e

/-! ### The inner event -/

/-- The name and the value of a line, and the text behind. The colon is searched in all of the text:
one behind the line makes the value of all that follows it, and the text ends there. -/
def plainSplit (beg line rest : Text) : Option (Text × Text) × Text :=
  match cut ':' beg with
  | (_, none) => (none, rest)
  | (hname, some hval) =>
    if ':' ∈ line then (some (hname, (cut '\n' (skipSpaces hval)).1), rest)
    else (some (line, skipSpaces hval), (cut ':' rest).1)

def plainHeader (e : Event) (hname hval : Text) : Event :=
  let hval := eslUrlDecode hval
  let e := if ciEq hname "event-name" then
      { eventDelHeader e "event-name" with eventId := (eslNameEvent hval).getD e.eventId }
    else e
  if arrayTag.isPrefixOf hval then eslEventAddArray e hname hval
  else eslEventAddHeaderString e Stack.bottom hname hval

theorem plainSplit_length (beg line rest : Text) :
    (plainSplit beg line rest).2.length ≤ rest.length := by
  unfold plainSplit
  split
  · exact le_rfl
  · split
    · exact le_rfl
    · have whole := congrArg List.length (cut_append ':' rest)
      rw [length_append] at whole
      show (cut ':' rest).1.length ≤ rest.length
      omega

def plainHeaders (e : Event) (beg : Text) : Event × Text :=
  match _found : cut '\n' beg with
  | (_, none) => (e, beg)
  | (line, some rest) =>
    let e := (plainSplit beg line rest).1.elim e fun field => plainHeader e field.1 field.2
    match _more : (plainSplit beg line rest).2 with
    | '\n' :: body => (e, body)
    | more => plainHeaders e more
termination_by beg.length
decreasing_by
  have shorter := cut_length '\n' beg rest (by rw [_found])
  have split := plainSplit_length beg line rest
  rw [_more] at split
  omega

def recvPlain (body : Text) : Event :=
  let inner := plainHeaders (eventAlloc .clone) body
  if (eventGetHeader inner.1 "content-length").isSome then
    { inner.1 with body := some inner.2 }
  else inner.1

/-! ### One line -/

/-- A header that its line carries: the name is free of the marks of the format, the value is a C
string, and an array is joined without a mark inside an element. -/
structure Sendable (h : Header) : Prop where
  colonless : ':' ∉ h.name
  inLine : '\n' ∉ h.name
  bytes : ∀ v, h.value = some v → ∀ c ∈ v, c ≠ '\x00' ∧ c.toNat < 256
  joined : h.array.length ≠ 1
  unmarked : ∀ a ∈ h.array, ¬ arraySep <:+: a

theorem not_mem_encodedValue {c : Char} (reserved : urlReserved c = true) (other : c ≠ '%')
    (noDigit : hexValue c = none) (h : Header) : c ∉ encodedValue h := by
  intro member
  rcases mem_encode member with percent | digit | plain
  · exact other percent
  · rw [noDigit] at digit
    cases digit
  · rw [reserved] at plain
    cases plain

section Line

variable {h : Header} (sendable : Sendable h)

include sendable

theorem cut_headerText (more : Text) :
    cut '\n' (headerText h ++ more) = (h.name ++ ':' :: ' ' :: encodedValue h, some more) := by
  have absent : '\n' ∉ h.name ++ ':' :: ' ' :: encodedValue h := by
    have inValue : '\n' ∉ encodedValue h := not_mem_encodedValue (by decide) (by decide) (by decide) h
    simp only [mem_append, mem_cons, not_or]
    exact ⟨sendable.inLine, by decide, by decide, inValue⟩
  have shape : headerText h ++ more = (h.name ++ ':' :: ' ' :: encodedValue h) ++ '\n' :: more := by
    simp [headerText]
  rw [shape]
  exact cut_append_cons absent more

theorem plainSplit_headerText (filled : encodedValue h ≠ []) (more : Text) :
    plainSplit (headerText h ++ more) (h.name ++ ':' :: ' ' :: encodedValue h) more =
      (some (h.name, encodedValue h), more) := by
  have shape : headerText h ++ more =
      h.name ++ ':' :: (' ' :: (encodedValue h ++ '\n' :: more)) := by
    simp [headerText]
  have blank : skipSpaces (' ' :: (encodedValue h ++ '\n' :: more)) =
      encodedValue h ++ '\n' :: more := by
    have spaceless : ' ' ∉ encodedValue h := not_mem_encodedValue (by decide) (by decide) (by decide) h
    obtain ⟨c, rest, same⟩ := exists_cons_of_ne_nil filled
    have other : c ≠ ' ' := fun space => spaceless (by rw [same, space]; exact mem_cons_self)
    unfold skipSpaces
    rw [dropWhile_cons_of_pos (by decide), same]
    exact dropWhile_cons_of_neg (by simpa using other)
  have inLine : '\n' ∉ encodedValue h := not_mem_encodedValue (by decide) (by decide) (by decide) h
  unfold plainSplit
  rw [shape, cut_append_cons sendable.colonless]
  dsimp only
  rw [if_pos (by simp), blank, cut_append_cons inLine]

theorem plainHeaders_next (filled : encodedValue h ≠ []) (e : Event) {more : Text}
    (line : more.head? ≠ some '\n') :
    plainHeaders e (headerText h ++ more) =
      plainHeaders (plainHeader e h.name (encodedValue h)) more := by
  have split := plainSplit_headerText sendable filled more
  rw [plainHeaders, cut_headerText sendable more]
  dsimp only
  rw [split]
  cases more with
  | nil => rfl
  | cons c more =>
    have other : c ≠ '\n' := fun same => line (by rw [same]; rfl)
    rw [elim_some]
    split
    next same => exact absurd (List.cons.inj same).1 other
    next => rfl

theorem plainHeaders_last (filled : encodedValue h ≠ []) (e : Event) (body : Text) :
    plainHeaders e (headerText h ++ '\n' :: body) =
      (plainHeader e h.name (encodedValue h), body) := by
  have split := plainSplit_headerText sendable filled ('\n' :: body)
  rw [plainHeaders, cut_headerText sendable]
  dsimp only
  rw [split]
  rfl

end Line

/-! ### One header -/

variable {h : Header} {headers : List Header}

theorem eslUrlDecode_encodedValue (sendable : Sendable h) {v : Text} (value : h.value = some v) :
    eslUrlDecode (encodedValue h) = v := by
  have bytes := sendable.bytes v value
  unfold eslUrlDecode encodedValue
  rw [value, getD_some, decode_encode (by decide) fun c member => (bytes c member).2]
  exact takeWhile_eq_self_iff.mpr fun c member => by simpa using (bytes c member).1

theorem arrayPieces_render {array : List Text} (several : 2 ≤ array.length)
    (head : array.head? ≠ some []) (unmarked : ∀ a ∈ array, ¬ arraySep <:+: a) :
    arrayPieces (render array) = array := by
  have filled : array ≠ [] := fun nothing => by simp [nothing] at several
  have drawn := render_of_two_le several
  have rest : (render array).drop 7 = arraySep.intercalate array := by
    rw [drawn]
    exact drop_left' (by decide)
  have long : ¬ (render array).length < 8 := by
    obtain ⟨a, as, rfl⟩ := exists_cons_of_ne_nil filled
    have full : 0 < a.length := length_pos_iff.mpr fun nothing => head (by rw [nothing]; rfl)
    have size : (arraySep.intercalate (a :: as)).length ≥ a.length := by
      obtain ⟨front, back, join⟩ := intercalate_around arraySep [] as
      have here := join a
      rw [nil_append] at here
      rw [here]
      simp only [length_append]
      omega
    have tag : arrayTag.length = 7 := by decide
    rw [drawn, length_append, tag]
    omega
  unfold arrayPieces
  rw [if_neg long, separateStr_eq, rest]
  exact splitStr_intercalate (by decide) filled unmarked

theorem plainHeader_eq (good : h.Good) (sendable : Sendable h) (repushable : Repushable h)
    (e : Event) :
    ∃ id, plainHeader e h.name (encodedValue h) =
      replayHeader (if ciEq h.name "event-name" then
        { eventDelHeader e "event-name" with eventId := id } else e) h := by
  obtain ⟨v, value⟩ := good.valued
  unfold plainHeader
  rw [eslUrlDecode_encodedValue sendable value]
  refine ⟨(eslNameEvent v).getD e.eventId, ?_⟩
  dsimp only
  generalize (if ciEq h.name "event-name" = true then
    { eventDelHeader e "event-name" with eventId := (eslNameEvent v).getD e.eventId }
    else e) = cleared
  by_cases array : h.array = []
  · obtain ⟨w, same, -, tagless⟩ := good.scalar array
    obtain rfl : v = w := some.inj (value.symm.trans same)
    have untagged : ¬ arrayTag.isPrefixOf v = true := fun tagged =>
      tagless (List.isPrefixOf_iff_prefix.mp tagged).isInfix
    rw [if_neg untagged, replayHeader, if_neg (by simp [Header.idx, array]), value]
    rfl
  · obtain ⟨drawn, a, as, shape, full, -⟩ := repushable array
    have several : 2 ≤ h.array.length := by
      have one := sendable.joined
      have some : 0 < h.array.length := length_pos_iff.mpr array
      omega
    have spelled : v = render h.array := some.inj (value.symm.trans drawn)
    have tagged : arrayTag.isPrefixOf v = true := by
      rw [spelled, render_of_two_le several]
      exact List.isPrefixOf_iff_prefix.mpr (prefix_append _ _)
    have head : h.array.head? ≠ some [] := by
      rw [shape]
      exact fun empty => full (some.inj empty)
    rw [if_pos tagged, replayHeader, if_pos (by simpa [Header.idx] using array), eslEventAddArray,
      spelled, arrayPieces_render several head sendable.unmarked]
    rfl

/-! ### All lines -/

theorem Rebuilt.plainHeader {front : List Header} {e : Event} (rebuilt : Rebuilt front e)
    (good : h.Good) (sendable : Sendable h) (rebuildable : Rebuildable (front ++ [h]))
    (named : ciEq h.name "event-name" = true → ∀ b ∈ front, ciEq b.name h.name = false) :
    Rebuilt (front ++ [h]) (plainHeader e h.name (encodedValue h)) ∧
      (h.name ≠ "_body" → (plainHeader e h.name (encodedValue h)).body = e.body) := by
  have plain := rebuildable.plain h (by simp)
  obtain ⟨id, same⟩ := plainHeader_eq good sendable (rebuildable.repushable h (by simp)) e
  rw [same]
  split
  next event =>
    have new : ∀ b ∈ front, ciEq b.name "event-name" = false := fun b member => by
      rw [ciEq_comm, ← ciEq_congr event, ciEq_comm]
      exact named event b member
    exact ⟨(rebuilt.clear new id).replay good rebuildable, fun other =>
      replayHeader_body plain other _⟩
  next => exact ⟨rebuilt.replay good rebuildable, fun other => replayHeader_body plain other e⟩

theorem encodedValue_ne_nil (good : h.Good) (repushable : Repushable h) (sendable : Sendable h) :
    h.value.getD [] ≠ [] := by
  by_cases array : h.array = []
  · obtain ⟨v, value, filled, -⟩ := good.scalar array
    rw [value]
    exact filled
  · have several : 2 ≤ h.array.length := by
      have one := sendable.joined
      have some : 0 < h.array.length := length_pos_iff.mpr array
      omega
    rw [(repushable array).1, getD_some, render_of_two_le several]
    exact fun empty => absurd (append_eq_nil_iff.mp empty).1 (by decide)

theorem plainHeaders_lines {rest : List Header} (body : Text) :
    ∀ {front : List Header} {e : Event}, Rebuilt front e → (∀ h ∈ rest, h.Good ∧ Sendable h) →
      Rebuildable (front ++ rest) → NamedOnce (front ++ rest) → rest ≠ [] →
      ∃ e', plainHeaders e (rest.flatMap headerText ++ '\n' :: body) = (e', body) ∧
        Rebuilt (front ++ rest) e' ∧
        ((∀ h ∈ rest, h.name ≠ "_body") → e'.body = e.body) := by
  induction rest with
  | nil => exact fun _ _ _ _ some => absurd rfl some
  | cons h rest ih =>
    intro front e rebuilt all rebuildable named _
    obtain ⟨good, sendable⟩ := all h mem_cons_self
    have shape : front ++ h :: rest = (front ++ [h]) ++ rest := by simp
    have upTo : Rebuildable (front ++ [h]) := (shape ▸ rebuildable).front
    have first : ciEq h.name "event-name" = true →
        ∀ b ∈ front, ciEq b.name h.name = false := fun event b member =>
      (pairwise_append.mp named).2.2 b member h mem_cons_self event
    obtain ⟨next, same⟩ := rebuilt.plainHeader good sendable upTo first
    have filled : encodedValue h ≠ [] := encode_ne_nil
      (encodedValue_ne_nil good (upTo.repushable h (by simp)) sendable)
    rw [flatMap_cons, append_assoc]
    by_cases last : rest = []
    · subst last
      exact ⟨_, plainHeaders_last sendable filled e body, next,
        fun other => same (other h mem_cons_self)⟩
    · obtain ⟨e', run, rebuilt', kept⟩ := ih next
        (fun b member => all b (mem_cons_of_mem _ member)) (shape ▸ rebuildable)
        (shape ▸ named) last
      have line : (rest.flatMap headerText ++ '\n' :: body).head? ≠ some '\n' := by
        obtain ⟨b, rest, rfl⟩ := exists_cons_of_ne_nil last
        have inLine := (all b (by simp)).2.inLine
        rw [flatMap_cons, headerText]
        cases name : b.name with
        | nil => simp
        | cons c more =>
          rw [name] at inLine
          have other : c ≠ '\n' := fun newline => inLine (newline ▸ mem_cons_self)
          simpa using other
      rw [plainHeaders_next sendable filled e line]
      refine ⟨e', run, shape ▸ rebuilt', fun other => ?_⟩
      exact (kept fun b member => other b (mem_cons_of_mem _ member)).trans
        (same (other h mem_cons_self))

/-! ### The round trip -/

def lengthHeaders : Option Text → List Header
  | some (c :: body) => [contentLength (c :: body)]
  | _ => []

structure PlainSent (e : Event) : Prop where
  rebuildable : Rebuildable e.list
  named : NamedOnce e.list
  sendable : ∀ h ∈ e.list, Sendable h
  encodable : Encodable e.list
  bodyFits : ∀ body, e.body = some body → body ≠ [] → BodyFits e.list body
  bodyless : e.body.getD [] = [] → ∀ h ∈ e.list, h.name ≠ "_body"
  lengthless : e.body = none → ∀ h ∈ e.list, ciEq h.name "content-length" = false
  lengthened : e.body = some [] → ∃ h ∈ e.list, ciEq h.name "content-length" = true

theorem urlReserved_digit {c : Char} (digit : c.isDigit = true) : urlReserved c = false := by
  have range : 48 ≤ c.toNat ∧ c.toNat ≤ 57 := by
    simpa [Char.isDigit, UInt32.le_iff_toNat_le] using digit
  have all : ∀ n < 58, 48 ≤ n → urlReserved (Char.ofNat n) = false := by decide
  rw [← Char.ofNat_toNat c]
  exact all c.toNat (by omega) range.1

theorem encodedValue_contentLength (body : Text) :
    encodedValue (contentLength body) = lengthText body := by
  unfold encodedValue
  rw [contentLength_value, getD_some]
  refine encode_plain urlReserved fun c member => ?_
  rcases mem_lengthText member with rfl | digit
  · decide
  · exact urlReserved_digit digit

theorem joined_line (name length body : Text) :
    name ++ [':', ' '] ++ length ++ '\n' :: '\n' :: body =
      (name ++ ':' :: ' ' :: (length ++ ['\n'])) ++ '\n' :: body := by
  simp

theorem bodyText_eq (body : Text) :
    bodyText body = headerText (contentLength body) ++ '\n' :: body := by
  have label : "Content-Length: " = "Content-Length" ++ [':', ' '] := by decide
  have line : headerText (contentLength body) =
      "Content-Length" ++ ':' :: ' ' :: (lengthText body ++ ['\n']) := by
    unfold headerText
    rw [contentLength_name, encodedValue_contentLength]
  have text : bodyText body =
      "Content-Length" ++ [':', ' '] ++ lengthText body ++ '\n' :: '\n' :: body := by
    unfold bodyText
    rw [label]
  rw [line, text]
  exact joined_line _ _ _

theorem tailText_eq (body : Option Text) :
    tailText body = (lengthHeaders body).flatMap headerText ++ '\n' :: body.getD [] := by
  match body with
  | none => rfl
  | some [] => rfl
  | some (c :: body) =>
    rw [tailText, lengthHeaders, flatMap_singleton, bodyText_eq, getD_some]

theorem contentLength_good (body : Text) : (contentLength body).Good := by
  obtain ⟨filled, tagless⟩ := lengthText_plain body
  exact ⟨rfl, ⟨_, rfl⟩, fun _ => ⟨_, rfl, filled, tagless⟩⟩

theorem contentLength_sendable (body : Text) : Sendable (contentLength body) where
  colonless := by
    rw [contentLength_name]
    decide
  inLine := by
    rw [contentLength_name]
    decide
  bytes := by
    intro v value c member
    rw [contentLength_value] at value
    cases value
    rcases mem_lengthText member with rfl | digit
    · decide
    · have range : 48 ≤ c.toNat ∧ c.toNat ≤ 57 := by
        simpa [Char.isDigit, UInt32.le_iff_toNat_le] using digit
      refine ⟨?_, by omega⟩
      rintro rfl
      exact absurd range.1 (by decide)
  joined := nofun
  unmarked := fun _ member => absurd member not_mem_nil

theorem Rebuildable.lengthHeaders (all : Rebuildable headers) (body : Option Text) :
    Rebuildable (headers ++ lengthHeaders body) := by
  match body with
  | none => simpa [FreeSwitch.lengthHeaders] using all
  | some [] => simpa [FreeSwitch.lengthHeaders] using all
  | some (c :: body) =>
    rw [FreeSwitch.lengthHeaders]
    refine ⟨fun h member => ?_, fun h member => ?_, pairwise_append.mpr
      ⟨all.first, pairwise_singleton _ _, fun b _ h member array => ?_⟩⟩
    · rcases mem_append.mp member with old | new
      · exact all.plain h old
      · rw [mem_singleton.mp new, contentLength_name]
        decide
    · rcases mem_append.mp member with old | new
      · exact all.repushable h old
      · rw [mem_singleton.mp new]
        exact fun array => absurd (contentLength_array _) array
    · rw [mem_singleton.mp member] at array
      exact absurd (contentLength_array _) array

theorem NamedOnce.lengthHeaders (named : NamedOnce headers) (body : Option Text) :
    NamedOnce (headers ++ lengthHeaders body) := by
  match body with
  | none => simpa [FreeSwitch.lengthHeaders] using named
  | some [] => simpa [FreeSwitch.lengthHeaders] using named
  | some (c :: body) =>
    refine pairwise_append.mpr ⟨named, pairwise_singleton _ _, fun b _ h member event => ?_⟩
    rw [mem_singleton.mp member, contentLength_name] at event
    exact absurd event (by decide)

theorem eventGetHeader_isSome_iff {e : Event} (wf : WellFormed e) {name : Text}
    (header : name ≠ "_body") :
    (eventGetHeader e name).isSome = true ↔ ∃ h ∈ e.list, ciEq h.name name = true := by
  rw [eventGetHeader, reading_value header, wf.view_eq]
  cases shape : classOf name e.list with
  | nil =>
    refine iff_of_false nofun ?_
    rintro ⟨h, member, same⟩
    have inside : h ∈ classOf name e.list := mem_classOf.mpr ⟨member, same⟩
    rw [shape] at inside
    exact absurd inside not_mem_nil
  | cons h rest =>
    obtain ⟨member, same⟩ := mem_classOf.mp (shape ▸ mem_cons_self : h ∈ classOf name e.list)
    obtain ⟨v, value⟩ := (wf.good h member).valued
    refine iff_of_true ?_ ⟨h, member, same⟩
    show h.value.isSome = true
    rw [value]
    rfl

theorem plainHeaders_empty (e : Event) : plainHeaders e ['\n'] = (e, []) := by
  have line : cut '\n' ['\n'] = ([], some []) := rfl
  have split : plainSplit ['\n'] [] [] = (none, []) := rfl
  have ended : plainHeaders e [] = (e, []) := by
    rw [plainHeaders]
    rfl
  rw [plainHeaders, line]
  dsimp only
  rw [split]
  exact ended

theorem plainHeaders_all (body : Option Text)
    (all : ∀ h ∈ headers ++ lengthHeaders body, h.Good ∧ Sendable h)
    (rebuildable : Rebuildable (headers ++ lengthHeaders body))
    (named : NamedOnce (headers ++ lengthHeaders body)) :
    ∃ e', plainHeaders (eventAlloc .clone)
        ((headers ++ lengthHeaders body).flatMap headerText ++ '\n' :: body.getD []) =
          (e', body.getD []) ∧
      Rebuilt (headers ++ lengthHeaders body) e' ∧
      ((∀ h ∈ headers ++ lengthHeaders body, h.name ≠ "_body") → e'.body = none) := by
  by_cases empty : headers ++ lengthHeaders body = []
  · have bodyless : body.getD [] = [] := by
      have added := (append_eq_nil_iff.mp empty).2
      match body with
      | none => rfl
      | some [] => rfl
      | some (c :: body) => cases added
    rw [empty, bodyless]
    exact ⟨_, plainHeaders_empty _, rebuilt_nil, fun _ => rfl⟩
  · obtain ⟨e', run, rebuilt, kept⟩ := plainHeaders_lines (body.getD []) rebuilt_nil all rebuildable
      named empty
    exact ⟨e', run, rebuilt, kept⟩

end FreeSwitch
