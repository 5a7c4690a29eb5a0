/-
**An ESL connection, from `esl.c`.**

The application calls `esl_recv_event` and `esl_send_recv_timed`; between its calls of `recv` the
library searches the packet buffer, allocates and fills a body, and looks into the event. A
connection is a state machine (`Client`): `advance` is what the library does on its own, and `step`
takes what comes from the application and from the socket as well.
-/

import FreeSwitch.Esl.Buffer
import FreeSwitch.Esl.Plain

namespace FreeSwitch

open CString

/-! ### Events of packets -/

/-- `while (*s == ' ' || *s == '\t') s++`. -/
def skipBlanks (s : Text) : Text := s.dropWhile fun c => c = ' ' || c = '\t'

theorem skipBlanks_length (s : Text) : (skipBlanks s).length ≤ s.length :=
  List.length_dropWhile_le _ _

def recvHeader (e : Event) (hname hval : Text) : Event :=
  let hval := eslUrlDecode hval
  if arrayTag.isPrefixOf hval then eslEventAddArray e hname hval
  else eslEventAddHeaderString e Stack.bottom hname hval

def recvHeaders (e : Event) (p : Text) : Event :=
  match _colon : cut ':' p with
  | (_, none) => e
  | (hname, some tail) =>
    match _line : cut '\n' (skipBlanks tail) with
    | (_, none) => e
    | (hval, some rest) => recvHeaders (recvHeader e hname hval) (rest.dropWhile isLineEnd)
termination_by p.length
decreasing_by
  have first := cut_length ':' p tail (by rw [_colon])
  have second := cut_length '\n' (skipBlanks tail) rest (by rw [_line])
  have blanks := skipBlanks_length tail
  have ends := List.length_dropWhile_le isLineEnd rest
  omega

def socketEvent (data : Text) : Event :=
  recvHeaders (eslEventAddHeaderString { eventAlloc .clone with eventId := .socketData }
    Stack.bottom "Event-Name" "SOCKET_DATA") data

/-- The length of the body, `atol` of the header. -/
def contentLen (event : Event) : Option Int :=
  (eventGetHeader event "content-length").map strtol

/-- `!esl_safe_strcasecmp(value of the header, text)`. -/
def headerIs (event : Event) (name text : String) : Bool :=
  (eventGetHeader event name.toList).elim false fun value => ciEq value text.toList

theorem eventGetHeader_body (event : Event) (body : Option Text) {name : Text}
    (other : name ≠ "_body") :
    eventGetHeader { event with body := body } name = eventGetHeader event name := by
  unfold eventGetHeader eventGetHeaderIdx
  rw [if_neg other, if_neg other]
  rfl

def disconnects (event : Event) : Bool :=
  headerIs event "content-type" "text/disconnect-notice" && event.body.isSome &&
    !headerIs event "content-disposition" "linger"

/-! ### The connection -/

def bufStart : Nat := 65536 * 100

def bufChunk : Nat := 65536 * 50

/-- `sizeof(handle->socket_buf) - 1`. -/
def socketLen : Nat := 65535

/-- A length as a `size_t`. -/
def sizeT (len : Int) : Nat := (len % 2 ^ 64).toNat

/-- A call of the application, with the arguments `check_q` and `save_event`. -/
inductive Client.Call
  | recvEvent (checkQ save : Bool)
  | sendRecv (ms : Nat)
  deriving DecidableEq, Repr

inductive Client.Phase
  | idle
  /-- `esl_recv_event_timed`, in `esl_send_recv_timed`, waits for the socket. -/
  | waiting (ms : Nat)
  /-- The loop that looks for a packet; the last `zc` calls of `recv` gave nothing. -/
  | reading (call : Call) (zc : Nat)
  /-- The loop that fills the body of `event`, which is `len` bytes long. -/
  | body (call : Call) (event : Event) (len : Int) (zc : Nat)
  /-- The label `parse_event`. -/
  | parsed (call : Call) (event : Event)
  | aborted

inductive Client.Input
  | call (call : Call)
  /-- The application calls `esl_send_recv_timed`, and the command cannot be sent. -/
  | unsent
  | proceed
  | ready
  | timeout
  /-- `recv` gives bytes, nothing, or an error. -/
  | data (chunk : Text)
  | zero
  | failed

/-- `esl_handle_t`, with the events that its calls have returned. -/
structure Client where
  buffer : EslBuffer
  phase : Client.Phase
  /-- `race_event` and those behind it. -/
  race : List Event
  connected : Bool
  delivered : List Event

namespace Client

def start : Client := ⟨EslBuffer.create bufStart, .idle, [], true, []⟩

/-- The label `fail`. -/
def fail (c : Client) : Client := { c with phase := .idle, connected := false }

variable (heap : Heap) (c : Client)

def deliver (event : Event) : Client :=
  { c with phase := .idle, delivered := c.delivered ++ [event] }

/-- `esl_recv_event_timed` for `esl_send_recv_timed`. -/
def await (ms : Nat) : Client :=
  { c with phase := if ms = 0 then .reading (.sendRecv ms) 0 else .waiting ms }

def invoke (call : Call) : Client :=
  if !c.connected then c
  else
    match call with
    | .recvEvent true save =>
      match c.race with
      | event :: race => { c with race := race, phase := .parsed (.recvEvent true save) event }
      | [] => { c with phase := .reading call 0 }
    | .recvEvent false _ => { c with phase := .reading call 0 }
    | .sendRecv ms => c.await ms

variable (call : Call)

/-- `event` has been read: its body is allocated, where it has a length. -/
def announce (event : Event) (zc : Nat) : Client :=
  match contentLen event with
  | some len =>
    { c with phase := if heap.alloc (sizeT (len + 1)) then .body call event len zc else .aborted }
  | none => { c with phase := .parsed call event }

/-- From `parse_event` on. `esl_send_recv_timed` puts an event that is no reply into the race queue
and waits for the next. -/
def finish (event : Event) : Client :=
  match call with
  | .recvEvent _ save => if !save && disconnects event then c.fail else c.deliver event
  | .sendRecv ms =>
    if headerIs event "content-type" "api/response" || headerIs event "content-type" "command/reply"
    then c.deliver event
    else if c.connected then ({ c with race := c.race ++ [event] } : Client).await ms
    else { c with phase := .idle, race := c.race ++ [event] }

def advance (c : Client) : Option Client :=
  match c.phase with
  | .reading call zc =>
    (c.buffer.readPacket heap socketLen).map fun packet =>
      ({ c with buffer := packet.2 } : Client).announce heap call (socketEvent packet.1) zc
  | .body call event len _ =>
    -- the length is signed here, and a size_t where the bytes are copied
    if len ≤ c.buffer.valid.length then
      some { c with
        buffer := (c.buffer.read (sizeT len)).2
        phase := .parsed call { event with body := some (c.buffer.read (sizeT len)).1 } }
    else none
  | .parsed call event => some (c.finish call event)
  | _ => none

/-- The counter of a loop that calls `recv`. -/
def Phase.setZc (zc : Nat) : Phase → Phase
  | .reading call _ => .reading call zc
  | .body call event len _ => .body call event len zc
  | phase => phase

/-- How often in a row `recv` has given nothing. -/
def Phase.zc : Phase → Nat
  | .reading _ zc | .body _ _ _ zc => zc
  | _ => 0

def step (c : Client) : Input → Client
  | .call call => c.invoke call
  | .unsent => { c with connected := false }
  | .proceed => (c.advance heap).getD c
  | .ready =>
    match c.phase with
    | .waiting ms => { c with phase := .reading (.sendRecv ms) 0 }
    | _ => c
  | .timeout => { c with phase := .idle }
  | .data chunk =>
    { c with buffer := c.buffer.write heap bufChunk chunk, phase := c.phase.setZc 0 }
  | .zero =>
    if 100 ≤ c.phase.zc + 1 then c.fail else { c with phase := c.phase.setZc (c.phase.zc + 1) }
  | .failed => c.fail

/-- A call waits for `recv`. -/
def Receives (c : Client) : Prop :=
  c.advance heap = none ∧
    match c.phase with
    | .reading .. | .body .. => True
    | _ => False

def Accepts (c : Client) : Input → Prop
  | .call _ | .unsent => c.phase = .idle
  | .proceed => (c.advance heap).isSome
  | .ready | .timeout => ∃ ms, c.phase = .waiting ms
  | .data chunk => c.Receives heap ∧ chunk ≠ [] ∧ chunk.length ≤ socketLen
  | .zero => c.Receives heap
  | .failed => c.Receives heap ∨ ∃ ms, c.phase = .waiting ms

def Input.bytes : Input → Text
  | .data chunk => chunk
  | _ => []

/-! ### What the steps leave alone -/

@[simp] theorem announce_delivered (event : Event) (zc : Nat) :
    (c.announce heap call event zc).delivered = c.delivered := by
  unfold announce
  split <;> rfl

@[simp] theorem announce_buffer (event : Event) (zc : Nat) :
    (c.announce heap call event zc).buffer = c.buffer := by
  unfold announce
  split <;> rfl

theorem finish_buffer (event : Event) : (c.finish call event).buffer = c.buffer := by
  unfold finish
  split
  · split <;> rfl
  · split
    · rfl
    · split <;> rfl

theorem invoke_buffer : (c.invoke call).buffer = c.buffer := by
  unfold invoke
  split
  · rfl
  · split
    · split <;> rfl
    · rfl
    · rfl

/-! ### Lengths -/

def NonNegative (c : Client) : Prop :=
  match c.phase with
  | .reading .. =>
    ∀ packet ∈ c.buffer.readPacket heap socketLen,
      ∀ len ∈ contentLen (socketEvent packet.1), 0 ≤ len
  | _ => True

def LenOk (c : Client) : Prop :=
  match c.phase with
  | .body _ _ len _ => 0 ≤ len ∧ len < 2 ^ 63
  | _ => True

theorem contentLen_lt {event : Event} {len : Int} (found : len ∈ contentLen event) :
    len < 2 ^ 63 := by
  obtain ⟨cl, -, rfl⟩ := Option.map_eq_some_iff.mp found
  exact strtol_lt cl

variable {c d : Client} {heap : Heap}

theorem LenOk.of_phase (lenOk : c.LenOk) (same : d.phase = c.phase) : d.LenOk := by
  unfold LenOk
  rw [same]
  exact lenOk

theorem lenOk_await (c : Client) (ms : Nat) : (c.await ms).LenOk := by
  unfold LenOk await
  by_cases direct : ms = 0 <;> simp [direct]

theorem lenOk_announce {call : Call} {event : Event} {zc : Nat}
    (nonneg : ∀ len ∈ contentLen event, 0 ≤ len) : (c.announce heap call event zc).LenOk := by
  unfold announce
  split
  next len found =>
    by_cases room : heap.alloc (sizeT (len + 1))
    · rw [if_pos room]
      exact ⟨nonneg len found, contentLen_lt found⟩
    · rw [if_neg room]
      trivial
  next => trivial

theorem lenOk_finish (c : Client) (call : Call) (event : Event) : (c.finish call event).LenOk := by
  unfold finish
  split
  · split <;> trivial
  · split
    · trivial
    · split
      · exact lenOk_await _ _
      · trivial

theorem lenOk_advance (nonneg : c.NonNegative heap) (steps : c.advance heap = some d) :
    d.LenOk := by
  unfold advance at steps
  split at steps
  next phase =>
    obtain ⟨packet, found, rfl⟩ := Option.map_eq_some_iff.mp steps
    rw [NonNegative, phase] at nonneg
    exact lenOk_announce (nonneg packet found)
  next =>
    split at steps
    · cases steps
      trivial
    · cases steps
  next =>
    cases steps
    exact lenOk_finish _ _ _
  next => cases steps

theorem lenOk_setZc (lenOk : c.LenOk) {zc : Nat} (counted : d.phase = c.phase.setZc zc) :
    d.LenOk := by
  unfold LenOk at lenOk ⊢
  rw [counted]
  cases phase : c.phase with
  | body call event len old =>
    rw [phase] at lenOk
    exact lenOk
  | _ => trivial

/-- **Where no packet announces a negative length, no body has one**, or one beyond 64 bits. -/
theorem LenOk.step (lenOk : c.LenOk) (nonneg : c.NonNegative heap) (input : Input) :
    (c.step heap input).LenOk := by
  cases input with
  | call call =>
    show (c.invoke call).LenOk
    unfold invoke
    split
    · exact lenOk
    · split
      · split <;> trivial
      · trivial
      · exact lenOk_await c _
  | unsent => exact lenOk.of_phase rfl
  | proceed =>
    show ((c.advance heap).getD c).LenOk
    cases next : c.advance heap with
    | none => exact lenOk
    | some d => exact lenOk_advance nonneg next
  | ready =>
    unfold Client.step
    dsimp only
    split
    · trivial
    · exact lenOk
  | timeout => trivial
  | data chunk => exact lenOk_setZc lenOk rfl
  | zero =>
    unfold Client.step
    dsimp only
    split
    · trivial
    · exact lenOk_setZc lenOk rfl
  | failed => trivial

theorem sizeT_of_nonneg {len : Int} (nonneg : 0 ≤ len) (below : len < 2 ^ 64) :
    (sizeT len : Int) = len := by
  unfold sizeT
  rw [Int.emod_eq_of_lt nonneg below]
  exact Int.toNat_of_nonneg nonneg

end Client

end FreeSwitch
