/-
**The framing of an ESL stream.**

A peer's bytes come in whatever pieces `recv` gives, and `esl_recv_event` returns one event after
another. `frames` says, for the stream as a whole, which events these should be.

* **`Reception.Framed.events_eq`**: a framed reception returns these;
* `exists_drained`: whatever the chunks are, they are received.
-/

import FreeSwitch.Esl.Client

namespace FreeSwitch

open CString Client List Option

/-! ### The events of a stream -/

/-- `event` with a body of `len` bytes of `text`, and what follows them. -/
def nextBody (event : Event) (len : Int) (text : Text) : Option (Event × Text) :=
  if len ≤ text.length then
    some ({ event with body := some (text.take len.toNat) }, text.drop len.toNat)
  else none

def nextFrame (alloc : Nat → Bool) (text : Text) : Option (Event × Text) :=
  match scanPacket '\x00' text with
  | none => none
  | some n =>
    let event := socketEvent (text.take (min n socketLen))
    let rest := text.drop (min n socketLen)
    match contentLen event with
    | some len => if alloc (sizeT (len + 1)) then nextBody event len rest else none
    | none => some (event, rest)

variable {event : Event} {text : Text}

theorem nextBody_length {after : Event} {len : Int} {rest : Text}
    (found : nextBody event len text = some (after, rest)) : rest.length ≤ text.length := by
  unfold nextBody at found
  split at found
  · cases found
    rw [length_drop]
    exact Nat.sub_le _ _
  · cases found

theorem nextFrame_length {alloc : Nat → Bool} {rest : Text}
    (found : nextFrame alloc text = some (event, rest)) : rest.length < text.length := by
  unfold nextFrame at found
  split at found
  · cases found
  next n ends =>
    obtain ⟨some_, filled⟩ := scanPacket_pos ends
    have shorter : (text.drop (min n socketLen)).length < text.length := by
      rw [length_drop]
      have : 0 < socketLen := by decide
      omega
    dsimp only at found
    split at found
    · split at found
      · exact lt_of_le_of_lt (nextBody_length found) shorter
      · cases found
    · cases found
      exact shorter

section Stream

variable (save : Bool) (alloc : Nat → Bool)

def frames (text : Text) : List Event :=
  match _found : nextFrame alloc text with
  | none => []
  | some (event, rest) => if !save && disconnects event then [] else event :: frames rest
termination_by text.length
decreasing_by exact nextFrame_length _found

def framesFrom : Option (Event × Text) → List Event
  | none => []
  | some (event, rest) => if !save && disconnects event then [] else event :: frames save alloc rest

theorem frames_eq (text : Text) :
    frames save alloc text = framesFrom save alloc (nextFrame alloc text) := by
  rw [frames]
  split
  next absent => rw [absent, framesFrom]
  next found => rw [found, framesFrom]

namespace Client

def future (c : Client) (text : Text) : List Event :=
  match c.phase with
  | .idle => if c.connected then frames save alloc text else []
  | .reading .. => frames save alloc text
  | .body _ event len _ => framesFrom save alloc (nextBody event len text)
  | .parsed _ event => framesFrom save alloc (some (event, text))
  | _ => []

/-- The events returned and still to be returned, when the bytes `t` are to come. -/
def promise (c : Client) (t : Text) : List Event :=
  c.delivered ++ c.future save alloc (c.buffer.valid ++ t)

end Client

end Stream

/-! ### Receptions -/

namespace Client

/-- The inputs of a reception: calls of `esl_recv_event`, and bytes. -/
def Input.Feeds (save : Bool) : Input → Prop
  | .call (.recvEvent _ own) => own = save
  | .proceed | .data _ => True
  | _ => False

def Receiving (heap : Heap) (save : Bool) (c : Client) (input : Input) : Prop :=
  c.Accepts heap input ∧ input.Feeds save

def Phase.Own (save : Bool) : Phase → Prop
  | .reading call _ | .body call _ _ _ | .parsed call _ => ∃ checkQ, call = .recvEvent checkQ save
  | .waiting _ => False
  | _ => True

/-- A call waits for bytes and none are left, or the connection is over. -/
def Drained (heap : Heap) (c : Client) (left : Text) : Prop :=
  c.Receives heap ∧ left = [] ∨ c.phase = .aborted ∨ c.phase = .idle ∧ c.connected = false

/-- The byte behind those in use does not end a packet: it is no line feed, they do not end within
an end of a packet, or one ends before. -/
def Clean (heap : Heap) (c : Client) : Prop :=
  match c.phase with
  | .reading .. => c.buffer.next heap = '\n' → PartialEnd c.buffer.valid →
      (scanPacket '\x00' c.buffer.valid).isSome
  | _ => True

structure Receiver (save : Bool) (c : Client) : Prop where
  own : c.phase.Own save
  up : c.phase = .idle ∨ c.connected = true
  quiet : c.race = []

end Client

/-- Successive calls of `esl_recv_event` that take in a stream, but for what a connection that is
over leaves. -/
structure Reception (heap : Heap) (save : Bool) (stream : Text) where
  inputs : List Input
  left : Text
  accepted : Run.Along (step heap) (Receiving heap save) start inputs
  whole : inputs.flatMap Input.bytes ++ left = stream
  drained : (Run.run (step heap) start inputs).Drained heap left

def Reception.events {heap : Heap} {save : Bool} {stream : Text}
    (r : Reception heap save stream) : List Event :=
  (Run.run (step heap) start r.inputs).delivered

/-- In every state passed, no packet is ended by a byte behind those in use or announces a negative
length. -/
def Reception.Framed {heap : Heap} {save : Bool} {stream : Text}
    (r : Reception heap save stream) : Prop :=
  ∀ done, done <+: r.inputs →
    (Run.run (step heap) start done).Clean heap ∧
      (Run.run (step heap) start done).NonNegative heap

/-! ### Every step conserves the promise -/

theorem nextBody_append {len : Int} (nonneg : 0 ≤ len) (within : len ≤ text.length) (t : Text) :
    nextBody event len (text ++ t) =
      some ({ event with body := some (text.take len.toNat) }, text.drop len.toNat ++ t) := by
  have inside : len.toNat ≤ text.length := by omega
  unfold nextBody
  rw [if_pos (by rw [length_append]; omega), take_append_of_le_length inside,
    drop_append_of_le_length inside]

theorem nextFrame_append {alloc : Nat → Bool} {n : Nat} (found : scanPacket '\x00' text = some n)
    (t : Text) :
    nextFrame alloc (text ++ t) =
      match contentLen (socketEvent (text.take (min n socketLen))) with
      | some len => if alloc (sizeT (len + 1)) then
          nextBody (socketEvent (text.take (min n socketLen))) len
            (text.drop (min n socketLen) ++ t)
        else none
      | none => some (socketEvent (text.take (min n socketLen)),
          text.drop (min n socketLen) ++ t) := by
  have inside : min n socketLen ≤ text.length := (Nat.min_le_left _ _).trans (scanPacket_le found)
  unfold nextFrame
  rw [scanPacket_append found]
  dsimp only
  rw [take_append_of_le_length inside, drop_append_of_le_length inside]

namespace Client

section Conserved

variable {heap : Heap} {save : Bool} {c : Client}

theorem future_announce (call : Call) (event : Event) (zc : Nat) (text : Text) :
    (c.announce heap call event zc).future save heap.alloc text =
      framesFrom save heap.alloc (match contentLen event with
        | some len => if heap.alloc (sizeT (len + 1)) then nextBody event len text else none
        | none => some (event, text)) := by
  unfold announce
  cases contentLen event with
  | none => rfl
  | some len =>
    by_cases room : heap.alloc (sizeT (len + 1))
    · simp only [if_pos room, future]
    · simp only [if_neg room, future, framesFrom]

theorem promise_packet {call : Call} {zc : Nat} {packet : Text × EslBuffer}
    (phase : c.phase = .reading call zc) (clean : c.Clean heap)
    (found : c.buffer.readPacket heap socketLen = some packet) (t : Text) :
    (({ c with buffer := packet.2 } : Client).announce heap call (socketEvent packet.1) zc).promise
      save heap.alloc t = c.promise save heap.alloc t := by
  rw [Clean, phase] at clean
  obtain ⟨n, ends, rfl⟩ := map_eq_some_iff.mp found
  rw [scanPacket_clean clean] at ends
  have before : c.future save heap.alloc (c.buffer.valid ++ t) =
      frames save heap.alloc (c.buffer.valid ++ t) := by
    rw [future, phase]
  rw [promise, promise, before, frames_eq, nextFrame_append ends, future_announce,
    announce_delivered, announce_buffer]
  rfl

theorem promise_body {call : Call} {len : Int} {zc : Nat}
    (phase : c.phase = .body call event len zc) (lenOk : c.LenOk)
    (within : len ≤ c.buffer.valid.length) (t : Text) :
    ({ c with
        buffer := (c.buffer.read (sizeT len)).2
        phase := .parsed call { event with body := some (c.buffer.read (sizeT len)).1 } } :
      Client).promise save heap.alloc t = c.promise save heap.alloc t := by
  rw [LenOk, phase] at lenOk
  have size : sizeT len = len.toNat := by
    have same := sizeT_of_nonneg lenOk.1 (by omega)
    omega
  have before : c.future save heap.alloc (c.buffer.valid ++ t) =
      framesFrom save heap.alloc (nextBody event len (c.buffer.valid ++ t)) := by
    rw [future, phase]
  rw [promise, promise, before, nextBody_append lenOk.1 within, size]
  rfl

variable {checkQ : Bool}

theorem promise_finish (phase : c.phase = .parsed (.recvEvent checkQ save) event)
    (up : c.connected = true) (t : Text) :
    (c.finish (.recvEvent checkQ save) event).promise save heap.alloc t =
      c.promise save heap.alloc t := by
  have before : c.future save heap.alloc (c.buffer.valid ++ t) =
      framesFrom save heap.alloc (some (event, c.buffer.valid ++ t)) := by
    rw [future, phase]
  unfold finish
  by_cases closes : (!save && disconnects event) = true
  · rw [promise, promise, before, framesFrom, if_pos closes]
    dsimp only
    rw [if_pos closes]
    simp [fail, future]
  · rw [promise, promise, before, framesFrom, if_neg closes]
    dsimp only
    rw [if_neg closes]
    simp [deliver, future, up]

theorem Receiver.up_of_ne (r : c.Receiver save) (busy : c.phase ≠ .idle) : c.connected = true :=
  r.up.resolve_left busy

theorem Receiver.advance {d : Client} (r : c.Receiver save) (steps : c.advance heap = some d) :
    d.Receiver save := by
  have own := r.own
  unfold Client.advance at steps
  split at steps
  next call zc phase =>
    obtain ⟨packet, -, rfl⟩ := map_eq_some_iff.mp steps
    rw [phase] at own
    have up : c.connected = true := r.up_of_ne (by rw [phase]; nofun)
    refine ⟨?_, Or.inr ?_, ?_⟩
    · unfold announce
      split
      · dsimp only
        split
        · exact own
        · trivial
      · exact own
    · unfold announce
      split <;> exact up
    · unfold announce
      split <;> exact r.quiet
  next call event len zc phase =>
    rw [phase] at own
    split at steps
    · cases steps
      exact ⟨own, Or.inr (r.up_of_ne (by rw [phase]; nofun)), r.quiet⟩
    · cases steps
  next call event phase =>
    rw [phase] at own
    obtain ⟨checkQ, rfl⟩ := own
    cases steps
    unfold finish
    dsimp only
    split <;> exact ⟨trivial, Or.inl rfl, r.quiet⟩
  next => cases steps

theorem promise_advance {d : Client} (r : c.Receiver save) (lenOk : c.LenOk)
    (clean : c.Clean heap) (steps : c.advance heap = some d) (t : Text) :
    d.promise save heap.alloc t = c.promise save heap.alloc t := by
  have own := r.own
  unfold advance at steps
  split at steps
  next call zc phase =>
    obtain ⟨packet, found, rfl⟩ := map_eq_some_iff.mp steps
    exact promise_packet phase clean found t
  next call event len zc phase =>
    split at steps
    next within =>
      cases steps
      exact promise_body phase lenOk within t
    next => cases steps
  next call event phase =>
    rw [phase] at own
    obtain ⟨checkQ, rfl⟩ := own
    cases steps
    exact promise_finish phase (r.up_of_ne (by rw [phase]; nofun)) t
  next => cases steps

theorem Receiver.invoke (r : c.Receiver save) :
    c.invoke (.recvEvent checkQ save) =
      if c.connected then { c with phase := .reading (.recvEvent checkQ save) 0 } else c := by
  by_cases up : c.connected = true
  · cases checkQ with
    | false => simp [Client.invoke, up]
    | true => simp [Client.invoke, up, r.quiet]
  · simp [Client.invoke, up]

theorem Receiver.call (r : c.Receiver save) :
    (c.invoke (.recvEvent checkQ save)).Receiver save := by
  rw [r.invoke]
  split
  next up => exact ⟨⟨checkQ, rfl⟩, Or.inr up, r.quiet⟩
  next => exact r

theorem promise_call (r : c.Receiver save) (idle : c.phase = .idle) (t : Text) :
    (c.invoke (.recvEvent checkQ save)).promise save heap.alloc t =
      c.promise save heap.alloc t := by
  rw [r.invoke]
  split
  next up => simp [promise, future, idle, up]
  next => rfl

theorem Receiver.data (r : c.Receiver save) (receives : c.Receives heap) (chunk : Text) :
    (c.step heap (.data chunk)).Receiver save := by
  have own := r.own
  have waits := receives.2
  have up : c.connected = true := r.up_of_ne fun idle => by rw [idle] at waits; exact waits
  refine ⟨?_, Or.inr up, r.quiet⟩
  show (c.phase.setZc 0).Own save
  cases phase : c.phase with
  | reading call zc => rwa [phase] at own
  | body call event len zc => rwa [phase] at own
  | _ =>
    rw [phase] at waits
    exact waits.elim

theorem promise_data (grows : heap.Grows) (receives : c.Receives heap) (chunk t : Text) :
    (c.step heap (.data chunk)).promise save heap.alloc t =
      c.promise save heap.alloc (chunk ++ t) := by
  have waits := receives.2
  have valid : (c.step heap (.data chunk)).buffer.valid = c.buffer.valid ++ chunk :=
    EslBuffer.write_valid grows bufChunk c.buffer chunk
  have after : (c.step heap (.data chunk)).phase = c.phase.setZc 0 := rfl
  cases phase : c.phase with
  | reading call zc =>
    rw [promise, promise, valid, future, future, after, phase, append_assoc]
    rfl
  | body call event len zc =>
    rw [promise, promise, valid, future, future, after, phase, append_assoc]
    rfl
  | _ =>
    rw [phase] at waits
    exact waits.elim

theorem step_proceed {d : Client} (steps : c.advance heap = some d) :
    c.step heap .proceed = d := by
  simp [step, steps]

/-- **What a step of a reception does.** -/
inductive Fed (heap : Heap) (save : Bool) (c : Client) : Input → Client → Prop
  | call (checkQ : Bool) (idle : c.phase = .idle) :
      Fed heap save c (.call (.recvEvent checkQ save)) (c.invoke (.recvEvent checkQ save))
  | proceed {d : Client} (steps : c.advance heap = some d) : Fed heap save c .proceed d
  | data {chunk : Text} (receives : c.Receives heap) (filled : chunk ≠ []) :
      Fed heap save c (.data chunk) (c.step heap (.data chunk))

theorem fed_step {input : Input} (fine : Receiving heap save c input) :
    Fed heap save c input (c.step heap input) := by
  obtain ⟨accepts, feeds⟩ := fine
  cases input with
  | call call =>
    cases call with
    | recvEvent checkQ own =>
      cases feeds
      exact .call checkQ accepts
    | sendRecv ms => exact feeds.elim
  | proceed =>
    obtain ⟨d, steps⟩ := isSome_iff_exists.mp accepts
    rw [step_proceed steps]
    exact .proceed steps
  | data chunk => exact .data accepts.1 accepts.2.1
  | _ => exact feeds.elim

theorem Receiver.step {input : Input} {d : Client} (r : c.Receiver save)
    (fed : Fed heap save c input d) : d.Receiver save := by
  cases fed with
  | call => exact r.call
  | proceed steps => exact r.advance steps
  | data receives => exact r.data receives _

/-- **Every step of a reception conserves the promise**, where no chunk is lost, the byte behind
does not end a packet and no length is negative. -/
theorem promise_step {input : Input} {d : Client} (grows : heap.Grows) (r : c.Receiver save)
    (lenOk : c.LenOk) (clean : c.Clean heap) (fed : Fed heap save c input d) (t : Text) :
    d.promise save heap.alloc t = c.promise save heap.alloc (input.bytes ++ t) := by
  cases fed with
  | call _ idle => exact promise_call r idle t
  | proceed steps => exact promise_advance r lenOk clean steps t
  | data receives => exact promise_data grows receives _ t

theorem promise_drained {left : Text} (drained : c.Drained heap left) (clean : c.Clean heap) :
    c.promise save heap.alloc left = c.delivered := by
  have nothing : c.future save heap.alloc (c.buffer.valid ++ left) = [] := by
    rcases drained with ⟨⟨stuck, waits⟩, rfl⟩ | aborted | ⟨idle, down⟩
    · rw [append_nil]
      cases phase : c.phase with
      | reading call zc =>
        rw [Clean, phase] at clean
        have absent : scanPacket '\x00' c.buffer.valid = none := by
          rw [← scanPacket_clean clean]
          simpa [advance, phase, EslBuffer.readPacket] using stuck
        rw [future, phase]
        rw [frames_eq, nextFrame, absent, framesFrom]
      | body call event len zc =>
        have short : ¬ len ≤ c.buffer.valid.length := by
          intro within
          simp [advance, phase, within] at stuck
        rw [future, phase]
        dsimp only
        rw [nextBody, if_neg short, framesFrom]
      | _ =>
        rw [phase] at waits
        exact waits.elim
    · rw [future, aborted]
    · simp [future, idle, down]
  rw [promise, nothing, append_nil]

end Conserved

end Client

/-! ### Receptions of one stream -/

theorem receiver_start (save : Bool) : start.Receiver save := ⟨trivial, Or.inl rfl, rfl⟩

theorem Reception.Framed.promise_eq {heap : Heap} {save : Bool} {stream : Text}
    {r : Reception heap save stream} (framed : r.Framed) (grows : heap.Grows)
    {done more : List Input} (shape : done ++ more = r.inputs) :
    (Run.run (step heap) start done).promise save heap.alloc (more.flatMap Input.bytes ++ r.left) =
      frames save heap.alloc stream := by
  have allowed := (r.accepted.passed
    (P := fun c : Client => c.Clean heap ∧ c.NonNegative heap) framed).beginning ⟨more, shape⟩
  have conserved := (allowed.conserves (I := fun c => c.Receiver save ∧ c.LenOk)
    ⟨receiver_start save, trivial⟩ (fun c input inv fine =>
      ⟨⟨inv.1.step (fed_step fine.1), inv.2.step fine.2.2 input⟩,
        promise_step grows inv.1 inv.2 fine.2.1 (fed_step fine.1)⟩)
    (more.flatMap Input.bytes ++ r.left)).2
  rw [← append_assoc, ← flatMap_append, shape, r.whole] at conserved
  exact conserved

/-- **A framed reception returns the events of its stream.** -/
theorem Reception.Framed.events_eq {heap : Heap} {save : Bool} {stream : Text}
    {r : Reception heap save stream} (framed : r.Framed) (grows : heap.Grows) :
    r.events = frames save heap.alloc stream := by
  rw [← framed.promise_eq grows (append_nil r.inputs)]
  exact (promise_drained r.drained (framed r.inputs (prefix_refl _)).1).symm

/-! ### Every stream is received -/

namespace Client

section Received

variable {heap : Heap} {save : Bool} {c : Client} {chunks rest : List Text}

/-- How far a phase is from the next call of `recv`. -/
def Phase.rank : Phase → Nat
  | .body .. => 3
  | .parsed .. => 2
  | .idle => 1
  | _ => 0

def toDo (c : Client) (chunks : List Text) : Nat :=
  4 * (c.buffer.valid.length + chunks.flatten.length) + chunks.flatten.length + c.phase.rank

theorem Phase.rank_le (phase : Phase) : phase.rank ≤ 3 := by
  cases phase <;> simp [Phase.rank]

theorem toDo_advance {d : Client} (steps : c.advance heap = some d)
    (chunks : List Text) : d.toDo chunks < c.toDo chunks := by
  unfold advance at steps
  split at steps
  next call zc phase =>
    obtain ⟨packet, found, rfl⟩ := map_eq_some_iff.mp steps
    obtain ⟨n, ends, rfl⟩ := map_eq_some_iff.mp found
    obtain ⟨some_, filled⟩ := scanPacket_pos ends
    have bound := Phase.rank_le (({ c with buffer := (c.buffer.read (min n socketLen)).2 } :
      Client).announce heap call (socketEvent (c.buffer.read (min n socketLen)).1) zc).phase
    have least : 0 < socketLen := by decide
    unfold toDo
    rw [announce_buffer]
    show 4 * ((c.buffer.valid.drop (min n socketLen)).length + _) + _ + _ < _
    rw [length_drop]
    omega
  next call event len zc phase =>
    split at steps
    · cases steps
      unfold toDo
      rw [phase]
      show 4 * ((c.buffer.valid.drop (sizeT len)).length + _) + _ + 2 < _ + 3
      rw [length_drop]
      omega
    · cases steps
  next call event phase =>
    cases steps
    have rank : (c.finish call event).phase.rank ≤ 1 := by
      unfold finish
      split
      · split <;> exact le_rfl
      · split
        · exact le_rfl
        · split
          · unfold await
            split <;> exact Nat.zero_le _
          · exact le_rfl
    unfold toDo
    rw [finish_buffer, phase]
    show _ + _ + _ < _ + _ + 2
    omega
  next => cases steps

theorem toDo_data {chunk : Text} (filled : chunk ≠ []) :
    (c.step heap (.data chunk)).toDo rest < c.toDo (chunk :: rest) := by
  have some_ : 0 < chunk.length := length_pos_iff.mpr filled
  have rank : (c.phase.setZc 0).rank = c.phase.rank := by
    cases c.phase <;> rfl
  have size := c.buffer.write_length_le heap bufChunk chunk
  unfold toDo
  show 4 * ((c.buffer.write heap bufChunk chunk).valid.length + _) + _ + (c.phase.setZc 0).rank < _
  rw [rank, flatten_cons, length_append]
  omega

/-- **A reception goes on**: without bytes, or with the next chunk, or the connection is over. -/
theorem Receiver.progress (heap : Heap) (r : c.Receiver save) :
    (∃ input, Receiving heap save c input ∧ input.bytes = [] ∧
      ∀ chunks, (c.step heap input).toDo chunks < c.toDo chunks) ∨
    c.Receives heap ∨ c.phase = .aborted ∨ c.phase = .idle ∧ c.connected = false := by
  cases steps : c.advance heap with
  | some d =>
    refine .inl ⟨.proceed, ⟨isSome_iff_exists.mpr ⟨d, steps⟩, trivial⟩, rfl, fun chunks => ?_⟩
    rw [step_proceed steps]
    exact toDo_advance steps chunks
  | none =>
    cases phase : c.phase with
    | idle =>
      by_cases up : c.connected = true
      · refine .inl ⟨.call (.recvEvent false save), ⟨phase, rfl⟩, rfl, fun chunks => ?_⟩
        show (c.invoke (.recvEvent false save)).toDo chunks < _
        rw [r.invoke, if_pos up]
        unfold toDo
        rw [phase]
        exact Nat.lt_succ_self _
      · exact .inr (.inr (.inr ⟨rfl, Bool.eq_false_iff.mpr up⟩))
    | waiting ms =>
      have own := r.own
      rw [phase] at own
      exact own.elim
    | parsed call event => simp [Client.advance, phase] at steps
    | aborted => exact .inr (.inr (.inl rfl))
    | reading call zc | body call event len zc =>
      refine .inr (.inl ⟨steps, ?_⟩)
      rw [phase]
      trivial

/-- The chunks are received one after the other, but for those left at the end. -/
def Drains (heap : Heap) (save : Bool) (c : Client) (chunks : List Text) : Prop :=
  ∃ inputs rest d, Run.Leads (step heap) (Receiving heap save) c inputs d ∧
    (inputs.map Input.bytes).filter (· ≠ []) ++ rest = chunks ∧ d.Drained heap rest.flatten

theorem Drains.step {input : Input} (fine : Receiving heap save c input)
    (bytes : [input.bytes].filter (· ≠ []) ++ rest = chunks)
    (drains : (c.step heap input).Drains heap save rest) : c.Drains heap save chunks := by
  obtain ⟨inputs, left, d, leads, rfl, drained⟩ := drains
  refine ⟨input :: inputs, left, d, Run.Leads.cons fine rfl leads, ?_, drained⟩
  rw [← bytes, ← append_assoc, ← filter_append]
  rfl

theorem exists_drained (heap : Heap) (r : c.Receiver save)
    (sized : ∀ chunk ∈ chunks, chunk ≠ [] ∧ chunk.length ≤ socketLen) :
    c.Drains heap save chunks := by
  -- on what is left to do, which every step of a reception makes less
  induction count : c.toDo chunks using Nat.strong_induction_on generalizing c chunks with
  | _ n ih =>
    subst count
    rcases r.progress heap with ⟨input, fine, none_, less⟩ | receives | over_
    · refine Drains.step fine ?_ (ih _ (less chunks) (r.step (fed_step fine)) sized rfl)
      simp [none_]
    · cases chunks with
      | nil => exact ⟨[], [], c, Run.Leads.refl c, rfl, .inl ⟨receives, rfl⟩⟩
      | cons chunk rest =>
        obtain ⟨⟨filled, short⟩, later⟩ := forall_mem_cons.mp sized
        have fine : Receiving heap save c (.data chunk) := ⟨⟨receives, filled, short⟩, trivial⟩
        refine Drains.step fine ?_ (ih _ (toDo_data filled) (r.step (fed_step fine)) later rfl)
        simp [Input.bytes, filled]
    · exact ⟨[], chunks, c, Run.Leads.refl c, rfl, .inr over_⟩

end Received

end Client

end FreeSwitch
