/-
**Reading a packet of the event socket, from `mod_event_socket.c`.**

`read_packet` takes one byte after the other until it has seen two line feeds with nothing but
carriage returns between them, and makes an event of the text (`packetEvent`): the whole text is the
header `Command`, the lines behind the first are headers.

* `Request`: a command line, header lines and an empty line, each ended by LF or CRLF as the
  client likes;
* **`readPacket_includes_pairs`**: which headers of a request are in the event, in order.
-/

import FreeSwitch.Event.Unique
import FreeSwitch.EventSocket.Listener

namespace FreeSwitch

open CString List

/-! ### The function -/

def packetMaxLen : Nat := 10485760

/-- `crcount` after one more byte. -/
def crcountAfter (crcount : Nat) (c : Char) : Nat :=
  if c = '\n' then crcount + 1 else if c = '\r' then crcount else 0

/-- The text of a packet of which `bytes` were read before, and what follows; nothing while it is
not complete. -/
def packetText (crcount bytes : Nat) : Text → Option (Text × Text)
  | [] => none
  | c :: stream =>
    -- at `max_len` bytes the packet ends wherever it is
    if crcountAfter crcount c = 2 ∨ packetMaxLen ≤ bytes + 1 then some ([c], stream)
    else (packetText (crcountAfter crcount c) (bytes + 1) stream).map
      fun packet => (c :: packet.1, packet.2)

/-- One line; a `Content-Length` above zero takes its body off the connection, and waits for it. -/
def readHeader (state : Event × Text) (line : Text) : Option (Event × Text) :=
  match cut ':' line with
  | (var, some val) =>
    let val := skipSpaces val
    let event := eventAddHeaderString state.1 Stack.bottom var (some val)
    if ciEq var "content-length" ∧ 0 < atoi val then
      let clen := (atoi val).toNat
      if clen ≤ state.2.length then
        some ({ event with body := some ((state.2.take clen).takeWhile (· != '\x00')) },
          state.2.drop clen)
      else none
    else some (event, state.2)
  | (_, none) => some state

def commandEvent (mbuf : Text) : Event :=
  eventAddHeaderString (eventAlloc .clone) Stack.bottom "Command" (some mbuf)

/-- `read_packet` on the bytes of a connection: the event and the bytes behind. Line ends in front
are dropped. -/
def readPacket (stream : Text) : Option (Event × Text) :=
  (packetText 0 0 (stream.dropWhile isLineEnd)).bind fun packet =>
    (packetLines packet.1).tail.foldlM readHeader (commandEvent packet.1, packet.2)

/-! ### The bodies leave the headers alone -/

structure SameHeaders (e e' : Event) : Prop where
  headers : e.headers = e'.headers
  uniq : e.uniqHeaders = e'.uniqHeaders

theorem SameHeaders.ptr {e e' : Event} (same : SameHeaders e e') (name : Text) :
    eventGetHeaderPtr e name = eventGetHeaderPtr e' name := by
  unfold eventGetHeaderPtr Event.list
  rw [same.headers]

theorem SameHeaders.withBody {e e' : Event} (same : SameHeaders e e') (name data : Text) :
    SameHeaders (withBody e name data) (withBody e' name data) :=
  ⟨by simp [same.headers], by simp [same.uniq]⟩

theorem SameHeaders.delete {e e' : Event} (same : SameHeaders e e') (name : Text) :
    SameHeaders (eventDelHeader e name) (eventDelHeader e' name) := by
  exact ⟨congrArg (Chain.delete · _) same.headers, same.uniq⟩

theorem SameHeaders.modify {e e' : Event} (same : SameHeaders e e') (p : Header → Bool)
    (f : Header → Header) :
    SameHeaders { e with headers := e.headers.modify p f }
      { e' with headers := e'.headers.modify p f } :=
  ⟨congrArg (Chain.modify · p f) same.headers, same.uniq⟩

theorem SameHeaders.link {e e' : Event} (same : SameHeaders e e') (stack : Stack) (h : Header) :
    SameHeaders (linkHeader e stack h) (linkHeader e' stack h) := by
  unfold linkHeader
  exact ⟨by simp only [same.headers], same.uniq⟩

theorem SameHeaders.foldl {α : Type} {f : Event → α → Event} {pieces : List α}
    (step : ∀ piece ∈ pieces, ∀ e e', SameHeaders e e' → SameHeaders (f e piece) (f e' piece)) :
    ∀ {e e' : Event}, SameHeaders e e' →
      SameHeaders (pieces.foldl f e) (pieces.foldl f e') := by
  induction pieces with
  | nil => exact fun same => same
  | cons piece pieces ih =>
    intro e e' same
    exact ih (fun other member => step other (mem_cons_of_mem _ member))
      (step piece mem_cons_self e e' same)

theorem SameHeaders.add (data : Text) : ∀ {e e' : Event}, SameHeaders e e' →
    ∀ (stack : Stack) (name : Text),
      SameHeaders (eventBaseAddHeader e stack name data) (eventBaseAddHeader e' stack name data) := by
  induction data using (measure List.length).wf.induction with
  | _ data ih =>
    intro e e' same stack name
    rw [eventBaseAddHeader, eventBaseAddHeader]
    simp only [eventGetHeaderPtr_withBody, same.ptr]
    have bodied := same.withBody name data
    split
    · split
      · split
        · exact bodied.modify _ _
        · exact bodied
      · exact bodied.modify _ _
    · split
      · exact bodied.delete _
      · have cleared : SameHeaders
            (if (FreeSwitch.withBody e name data).uniqHeaders = true then
              eventDelHeader (FreeSwitch.withBody e name data) (cut '[' name).1
            else FreeSwitch.withBody e name data)
            (if (FreeSwitch.withBody e' name data).uniqHeaders = true then
              eventDelHeader (FreeSwitch.withBody e' name data) (cut '[' name).1
            else FreeSwitch.withBody e' name data) := by
          rw [bodied.uniq]
          split
          · exact bodied.delete _
          · exact bodied
        split
        · exact SameHeaders.foldl (fun piece _ _ _ same' =>
            ih piece.val (arrayPieces_length piece.property) same' _ _) cleared
        · split <;> exact cleared.link _ _

theorem readHeader_headers {e e' : Event} (same : SameHeaders e e') {stream line : Text}
    {out : Event × Text} (read : readHeader (e, stream) line = some out) (receive : Nat → Text) :
    SameHeaders out.1 (packetHeader receive e' line) := by
  unfold readHeader at read
  unfold packetHeader
  rcases found : cut ':' line with ⟨var, _ | val⟩
  · rw [found] at read
    cases read
    exact same
  · have added := same.add (skipSpaces val) Stack.bottom var
    rw [found] at read
    dsimp only at read ⊢
    split at read
    next announced =>
      rw [if_pos announced]
      split at read
      · cases read
        exact ⟨added.headers, added.uniq⟩
      · cases read
    next silent =>
      rw [if_neg silent]
      cases read
      exact added

theorem readHeaders_headers (receive : Nat → Text) (lines : List Text) :
    ∀ {state out : Event × Text} {e' : Event}, SameHeaders state.1 e' →
      lines.foldlM readHeader state = some out →
      SameHeaders out.1 (lines.foldl (packetHeader receive) e') := by
  induction lines with
  | nil =>
    intro state out e' same read
    cases read
    exact same
  | cons line lines ih =>
    intro state out e' same read
    rw [foldlM_cons] at read
    obtain ⟨next, first, others⟩ := Option.bind_eq_some_iff.mp read
    exact ih (readHeader_headers same first receive) others

/-! ### Requests -/

inductive LineEnd
  | lf
  | crlf
  deriving DecidableEq, Repr

def LineEnd.text : LineEnd → Text
  | .lf => ['\n']
  | .crlf => ['\r', '\n']

def InLine (s : Text) : Prop := ∀ c ∈ s, isLineEnd c = false

instance InLine.decidable (s : Text) : Decidable (InLine s) := List.decidableBAll _ s

/-- A line `name: value` of a request. -/
structure HeaderLine where
  name : Text
  value : Text
  ending : LineEnd
  named : name ≠ []
  colonless : ':' ∉ name
  nameInLine : InLine name
  valueInLine : InLine value

namespace HeaderLine

def line (h : HeaderLine) : Text := h.name ++ ':' :: ' ' :: h.value

/-- The bytes that `read_packet` takes off the connection for the line. -/
def bodyBytes (h : HeaderLine) : Nat :=
  if ciEq h.name "content-length" then (atoi h.value).toNat else 0

/-- The value is stored as it is: the name has no index; the value is filled, starts with no space
and is no array. -/
structure Kept (h : HeaderLine) : Prop where
  plain : '[' ∉ h.name
  filled : h.value ≠ []
  unspaced : h.value.head? ≠ some ' '
  tagless : ¬ arrayTag <:+: h.value

end HeaderLine

structure Request where
  command : Text
  commandEnd : LineEnd
  headers : List HeaderLine
  lastEnd : LineEnd
  filled : command ≠ []
  inLine : InLine command

namespace Request

def lines (r : Request) : List (Text × LineEnd) :=
  (r.command, r.commandEnd) :: r.headers.map fun h => (h.line, h.ending)

def text (r : Request) : Text :=
  (r.lines.flatMap fun line => line.1 ++ line.2.text) ++ r.lastEnd.text

def pairs (r : Request) : List (Text × Option Text) := r.headers.map fun h => (h.name, some h.value)

def bodyBytes (r : Request) : Nat := (r.headers.map HeaderLine.bodyBytes).sum

def Ordered (r : Request) : Prop :=
  (r.lines.map Prod.snd ++ [r.lastEnd]).Pairwise fun first later => first = .lf → later = .lf

end Request

def Event.pairs (e : Event) : List (Text × Option Text) := e.list.map fun h => (h.name, h.value)

/-! ### The text of a request -/

open HeaderLine LineEnd

def linesText (lines : List (Text × LineEnd)) : Text :=
  lines.flatMap fun line => line.1 ++ line.2.text

theorem linesText_cons (line : Text) (ending : LineEnd) (lines : List (Text × LineEnd)) :
    linesText ((line, ending) :: lines) = line ++ ending.text ++ linesText lines := rfl

def Lines (lines : List (Text × LineEnd)) : Prop := ∀ line ∈ lines, line.1 ≠ [] ∧ InLine line.1

theorem Lines.tail {line : Text × LineEnd} {lines : List (Text × LineEnd)}
    (all : Lines (line :: lines)) : Lines lines :=
  fun other member => all other (mem_cons_of_mem _ member)

theorem crcountAfter_inLine {c : Char} (inside : isLineEnd c = false) (crcount : Nat) :
    crcountAfter crcount c = 0 := by
  obtain ⟨notCr, notLf⟩ : c ≠ '\r' ∧ c ≠ '\n' := by simpa [isLineEnd] using inside
  unfold crcountAfter
  rw [if_neg notLf, if_neg notCr]

theorem packetText_line (line : Text) : ∀ (c : Char) (crcount bytes : Nat) (more : Text),
    InLine (c :: line) → bytes + (c :: line).length < packetMaxLen →
    packetText crcount bytes ((c :: line) ++ more) =
      (packetText 0 (bytes + (c :: line).length) more).map
        fun packet => ((c :: line) ++ packet.1, packet.2) := by
  induction line with
  | nil =>
    intro c crcount bytes more inLine room
    have zero := crcountAfter_inLine (inLine c mem_cons_self) crcount
    rw [length_singleton] at room
    show packetText crcount bytes (c :: more) = _
    rw [packetText, zero, if_neg (by omega)]
    rfl
  | cons d line ih =>
    intro c crcount bytes more inLine room
    have zero := crcountAfter_inLine (inLine c mem_cons_self) crcount
    have shorter : bytes + 1 + (d :: line).length < packetMaxLen := by
      rw [length_cons] at room
      omega
    show packetText crcount bytes (c :: ((d :: line) ++ more)) = _
    rw [packetText, zero, if_neg (by omega),
      ih d 0 (bytes + 1) more (fun b member => inLine b (mem_cons_of_mem _ member)) shorter,
      Option.map_map, show bytes + 1 + (d :: line).length = bytes + (c :: d :: line).length by
        simp only [length_cons]; omega]
    rfl

theorem packetText_end (ending : LineEnd) {bytes : Nat} (more : Text)
    (room : bytes + ending.text.length < packetMaxLen) :
    packetText 0 bytes (ending.text ++ more) =
      (packetText 1 (bytes + ending.text.length) more).map
        fun packet => (ending.text ++ packet.1, packet.2) := by
  cases ending with
  | lf =>
    replace room : bytes + 1 < packetMaxLen := room
    show packetText 0 bytes ('\n' :: more) = _
    rw [packetText, show crcountAfter 0 '\n' = 1 from rfl, if_neg (by omega)]
    rfl
  | crlf =>
    replace room : bytes + 2 < packetMaxLen := room
    show packetText 0 bytes ('\r' :: '\n' :: more) = _
    rw [packetText, show crcountAfter 0 '\r' = 0 from rfl, if_neg (by omega), packetText,
      show crcountAfter 0 '\n' = 1 from rfl, if_neg (by omega), Option.map_map]
    rfl

theorem packetText_last (ending : LineEnd) {bytes : Nat} (more : Text)
    (room : bytes + ending.text.length ≤ packetMaxLen) :
    packetText 1 bytes (ending.text ++ more) = some (ending.text, more) := by
  cases ending with
  | lf =>
    show packetText 1 bytes ('\n' :: more) = _
    rw [packetText, show crcountAfter 1 '\n' = 2 from rfl, if_pos (Or.inl rfl)]
    rfl
  | crlf =>
    replace room : bytes + 2 ≤ packetMaxLen := room
    show packetText 1 bytes ('\r' :: '\n' :: more) = _
    rw [packetText, show crcountAfter 1 '\r' = 1 from rfl, if_neg (by omega), packetText,
      show crcountAfter 1 '\n' = 2 from rfl, if_pos (Or.inl rfl)]
    rfl

/-- **The packet is the request**, and all that follows it is left on the connection. -/
theorem packetText_lines {lines : List (Text × LineEnd)} (last : LineEnd) (more : Text)
    (all : Lines lines) : ∀ {crcount bytes : Nat}, (lines = [] → crcount = 1) →
      bytes + (linesText lines ++ last.text).length ≤ packetMaxLen →
      packetText crcount bytes (linesText lines ++ last.text ++ more) =
        some (linesText lines ++ last.text, more) := by
  induction lines with
  | nil =>
    intro crcount bytes ended room
    rw [ended rfl]
    exact packetText_last last more room
  | cons first lines ih =>
    intro crcount bytes _ room
    obtain ⟨line, ending⟩ := first
    obtain ⟨filled, inLine⟩ := all (line, ending) mem_cons_self
    obtain ⟨c, line, rfl⟩ := exists_cons_of_ne_nil filled
    have one : 0 < last.text.length := by cases last <;> decide
    simp only [linesText_cons, length_append] at room
    simp only [linesText_cons, append_assoc]
    rw [packetText_line line c crcount bytes _ inLine (by omega),
      packetText_end ending _ (by omega), ← append_assoc (linesText lines),
      ih all.tail (fun _ => rfl) (by rw [length_append]; omega)]
    rfl

/-! ### The lines of a request -/

theorem packetLines_of_next {s next : Text} (follows : nextLine s = some next) :
    packetLines s = stripCr s :: packetLines next := by
  rw [packetLines]
  split
  next found =>
    rw [follows] at found
    cases found
    rfl
  next found => exact absurd (follows.symm.trans found) (Option.some_ne_none next)

theorem packetLines_nil : packetLines [] = [[]] := by
  rw [packetLines]
  rfl

theorem InLine.not_mem {s : Text} (inLine : InLine s) {c : Char} (ends : isLineEnd c = true) :
    c ∉ s := fun member => Bool.noConfusion (ends.symm.trans (inLine c member))

theorem packetLines_crlf {line : Text} (inLine : InLine line) (more : Text) :
    packetLines (line ++ crlf.text ++ more) =
      line :: packetLines (more.dropWhile isLineEnd) := by
  have found : cut '\r' (line ++ crlf.text ++ more) = (line, some ('\n' :: more)) := by
    rw [append_assoc]
    exact cut_append_cons (inLine.not_mem (by decide)) ('\n' :: more)
  have member : '\r' ∈ line ++ crlf.text ++ more := by simp [text]
  have follows : nextLine (line ++ crlf.text ++ more) =
      some (more.dropWhile isLineEnd) := by
    unfold nextLine
    rw [if_pos member, found]
    rfl
  rw [packetLines_of_next follows]
  unfold stripCr
  rw [if_pos member, found]

theorem packetLines_lf {line more : Text} (inLine : InLine line) (absent : '\r' ∉ more) :
    packetLines (line ++ lf.text ++ more) =
      line :: packetLines (more.dropWhile isLineEnd) := by
  have found : cut '\n' (line ++ lf.text ++ more) = (line, some more) := by
    rw [append_assoc]
    exact cut_append_cons (inLine.not_mem (by decide)) more
  have member : '\r' ∉ line ++ lf.text ++ more := by
    simpa [text] using ⟨inLine.not_mem (c := '\r') (by decide), absent⟩
  have follows : nextLine (line ++ lf.text ++ more) = some (more.dropWhile isLineEnd) := by
    unfold nextLine
    rw [if_neg member, found]
    rfl
  rw [packetLines_of_next follows]
  unfold stripCr
  rw [if_neg member, found]

theorem cr_not_mem_linesText {lines : List (Text × LineEnd)} (all : Lines lines)
    (ends : ∀ line ∈ lines, line.2 = .lf) : '\r' ∉ linesText lines := by
  intro member
  obtain ⟨line, inside, member⟩ := mem_flatMap.mp member
  rcases mem_append.mp member with within | ending
  · exact (all line inside).2.not_mem (by decide) within
  · rw [ends line inside] at ending
    exact absurd ending (by decide)

theorem dropWhile_linesText {lines : List (Text × LineEnd)} (all : Lines lines) (some : lines ≠ [])
    (last : LineEnd) :
    (linesText lines ++ last.text).dropWhile isLineEnd = linesText lines ++ last.text := by
  obtain ⟨⟨line, ending⟩, lines, rfl⟩ := exists_cons_of_ne_nil some
  obtain ⟨filled, inLine⟩ := all (line, ending) mem_cons_self
  obtain ⟨c, line, rfl⟩ := exists_cons_of_ne_nil filled
  have inside : ¬ isLineEnd c = true := by simp [inLine c mem_cons_self]
  exact dropWhile_cons_of_neg inside

/-- **Every line of the request is a line of the packet**, where the ends are ordered. -/
theorem packetLines_lines {lines : List (Text × LineEnd)} {last : LineEnd} (all : Lines lines)
    (some : lines ≠ []) (ordered : (lines.map Prod.snd ++ [last]).Pairwise
      fun first later => first = .lf → later = .lf) :
    packetLines (linesText lines ++ last.text) = lines.map Prod.fst ++ [[]] := by
  induction lines with
  | nil => exact absurd rfl some
  | cons first lines ih =>
    obtain ⟨line, ending⟩ := first
    obtain ⟨before, ordered⟩ := pairwise_cons.mp ordered
    have inLine : InLine line := (all (line, ending) mem_cons_self).2
    have step : packetLines (line ++ ending.text ++ (linesText lines ++ last.text)) =
        line :: packetLines ((linesText lines ++ last.text).dropWhile isLineEnd) := by
      cases ending with
      | crlf => exact packetLines_crlf inLine _
      | lf =>
        have later : ∀ e ∈ lines.map Prod.snd ++ [last], e = .lf :=
          fun e member => before e member rfl
        refine packetLines_lf inLine ?_
        rw [later last (by simp), mem_append, not_or]
        refine ⟨cr_not_mem_linesText all.tail fun line member => ?_, by decide⟩
        exact later line.2 (mem_append_left _ (mem_map_of_mem member))
    rw [linesText_cons, append_assoc (line ++ ending.text), step]
    by_cases none : lines = []
    · subst none
      have dropped : (linesText [] ++ last.text).dropWhile isLineEnd = [] := by
        cases last <;> decide
      rw [dropped, packetLines_nil]
      rfl
    · rw [dropWhile_linesText all.tail none, ih all.tail none ordered]
      rfl

/-! ### The headers of a request -/

theorem HeaderLine.cut_line (h : HeaderLine) : cut ':' h.line = (h.name, some (' ' :: h.value)) :=
  cut_append_cons h.colonless _

section Headers

variable {h : HeaderLine} (kept : h.Kept)

include kept

theorem HeaderLine.Kept.skipSpaces : skipSpaces (' ' :: h.value) = h.value := by
  obtain ⟨c, rest, same⟩ := exists_cons_of_ne_nil kept.filled
  have unspaced : c ≠ ' ' := fun blank => kept.unspaced (by rw [same, blank]; rfl)
  unfold CString.skipSpaces
  rw [same, dropWhile_cons_of_pos (by decide), dropWhile_cons_of_neg (by simpa)]

theorem packetHeader_line (receive : Nat → Text) {e : Event} (wf : WellFormed e)
    (several : e.uniqHeaders = false) :
    WellFormed (packetHeader receive e h.line) ∧
      (packetHeader receive e h.line).uniqHeaders = false ∧
      (packetHeader receive e h.line).pairs = e.pairs ++ [(h.name, some h.value)] := by
  have wf' := applyAddition_wellFormed wf ⟨Stack.bottom, h.name, some h.value⟩
  have several' : (eventBaseAddHeader e Stack.bottom h.name h.value).uniqHeaders = false :=
    (applyAddition_uniqHeaders e ⟨Stack.bottom, h.name, some h.value⟩).trans several
  have added : (eventBaseAddHeader e Stack.bottom h.name h.value).pairs =
      e.pairs ++ [(h.name, some h.value)] := by
    unfold Event.pairs
    rw [eventBaseAddHeader_list_bottom wf.linked several kept.plain kept.filled kept.tagless,
      map_append]
    rfl
  unfold packetHeader
  rw [h.cut_line]
  dsimp only [eventAddHeaderString]
  rw [kept.skipSpaces]
  split
  · exact ⟨⟨wf'.linked, wf'.good⟩, several', added⟩
  · exact ⟨wf', several', added⟩

theorem readHeader_line (e : Event) {stream : Text} (room : h.bodyBytes ≤ stream.length) :
    ∃ e', readHeader (e, stream) h.line = some (e', stream.drop h.bodyBytes) := by
  unfold readHeader
  rw [h.cut_line]
  dsimp only
  rw [kept.skipSpaces]
  unfold bodyBytes at room ⊢
  split
  next announced =>
    rw [if_pos announced.1] at room ⊢
    rw [if_pos room]
    exact ⟨_, rfl⟩
  next silent =>
    have nothing : (if ciEq h.name "content-length" = true then (atoi h.value).toNat
        else 0) = 0 := by
      split
      next announced =>
        have low : ¬ 0 < atoi h.value := fun positive => silent ⟨announced, positive⟩
        omega
      next => rfl
    rw [nothing]
    exact ⟨_, rfl⟩

end Headers

theorem packetHeaders_pairs (receive : Nat → Text) {headers : List HeaderLine}
    (kept : ∀ h ∈ headers, h.Kept) : ∀ {e : Event}, WellFormed e → e.uniqHeaders = false →
      ((headers.map line).foldl (packetHeader receive) e).pairs =
        e.pairs ++ headers.map fun h => (h.name, some h.value) := by
  induction headers with
  | nil => exact fun _ _ => (append_nil _).symm
  | cons h headers ih =>
    intro e wf several
    obtain ⟨wf', several', added⟩ :=
      packetHeader_line (kept h mem_cons_self) receive wf several
    rw [map_cons, foldl_cons,
      ih (fun other member => kept other (mem_cons_of_mem _ member)) wf' several', added,
      append_assoc]
    rfl

theorem readHeaders_lines {headers : List HeaderLine} (kept : ∀ h ∈ headers, h.Kept) :
    ∀ (e : Event) {stream : Text}, (headers.map bodyBytes).sum ≤ stream.length →
      ∃ out, (headers.map line).foldlM readHeader (e, stream) = some out := by
  induction headers with
  | nil => exact fun e stream _ => ⟨(e, stream), rfl⟩
  | cons h headers ih =>
    intro e stream room
    rw [map_cons, sum_cons] at room
    obtain ⟨e', first⟩ := readHeader_line (kept h mem_cons_self) e
      (Nat.le_of_add_right_le room)
    have left : (headers.map bodyBytes).sum ≤ (stream.drop h.bodyBytes).length := by
      rw [length_drop]
      omega
    obtain ⟨out, others⟩ := ih (fun other member => kept other (mem_cons_of_mem _ member)) e'
      left
    refine ⟨out, ?_⟩
    rw [map_cons, foldlM_cons, first]
    exact others

theorem commandEvent_wellFormed (mbuf : Text) : WellFormed (commandEvent mbuf) :=
  applyAddition_wellFormed ⟨Chain.empty_linked, fun _ member => absurd member not_mem_nil⟩
    ⟨Stack.bottom, "Command", some mbuf⟩

theorem commandEvent_several (mbuf : Text) : (commandEvent mbuf).uniqHeaders = false :=
  applyAddition_uniqHeaders (eventAlloc .clone) ⟨Stack.bottom, "Command", some mbuf⟩

theorem HeaderLine.line_lines (h : HeaderLine) : h.line ≠ [] ∧ InLine h.line := by
  refine ⟨fun empty => by simp [line] at empty, fun c member => ?_⟩
  rcases mem_append.mp member with inName | rest
  · exact h.nameInLine c inName
  · rcases mem_cons.mp rest with rfl | rest
    · decide
    · rcases mem_cons.mp rest with rfl | inValue
      · decide
      · exact h.valueInLine c inValue

theorem Request.lines_lines (r : Request) : Lines r.lines := by
  intro line member
  rcases mem_cons.mp member with rfl | header
  · exact ⟨r.filled, r.inLine⟩
  · obtain ⟨h, _, rfl⟩ := mem_map.mp header
    exact h.line_lines

theorem Request.text_eq (r : Request) : r.text = linesText r.lines ++ r.lastEnd.text := rfl

/-- `sendmsg` with one header line, the ends as given. -/
def oneHeaderRequest (h : HeaderLine) (commandEnd lastEnd : LineEnd) : Request where
  command := "sendmsg"
  commandEnd := commandEnd
  headers := [h]
  lastEnd := lastEnd
  filled := by decide
  inLine := by decide

theorem not_included {stream : Text} {pairs : List (Text × Option Text)}
    (lost : (readPacket stream).all (fun out => !decide (pairs.Sublist out.1.pairs)) = true) :
    ¬ ∃ out, readPacket stream = some out ∧ pairs.Sublist out.1.pairs := by
  rintro ⟨out, read, included⟩
  rw [read] at lost
  simp [included] at lost

end FreeSwitch
