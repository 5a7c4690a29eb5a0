/-
**An ESL connection against any peer.**

The length of a body is `atol` of a header, and `esl_send_recv_timed` compares the type of an event
without asking whether there is one. So a peer that announces a negative length makes the library
write outside the body, and a peer that leaves out the type makes it read a null pointer.

* **`client_robust`**: in every run in which no packet announces a negative length and none lacks a
  type that is used, every state is robust.
-/

import FreeSwitch.Esl.Chunking

namespace FreeSwitch

open CString Client List Run

def HasType (event : Event) : Prop := (eventGetHeader event "content-type").isSome = true

namespace Client

def Phase.Typed : Phase → Prop
  | .body (.sendRecv _) event _ _ | .parsed (.sendRecv _) event => HasType event
  | _ => True

/-- The packet in front has a type, where `esl_send_recv_timed` looks for one. -/
def Typed (heap : Heap) (c : Client) : Prop :=
  match c.phase with
  | .reading (.sendRecv _) _ =>
    ∀ packet ∈ c.buffer.readPacket heap socketLen, HasType (socketEvent packet.1)
  | _ => True

/-- The next step is safe: a body has a length, the block of `len + 1` bytes has room for it and the
NUL, and exactly so many bytes are copied into it when they are there; and the type that
`esl_send_recv_timed` compares is there. -/
def Robust (c : Client) : Prop :=
  match c.phase with
  | .body _ _ len _ => 0 ≤ len ∧ (sizeT (len + 1) : Int) = len + 1 ∧
      (len ≤ c.buffer.valid.length → ((c.buffer.read (sizeT len)).1.length : Int) = len)
  | .parsed (.sendRecv _) event => HasType event
  | _ => True

/-! ### Types -/

theorem typed_await (c : Client) (ms : Nat) : (c.await ms).phase.Typed := by
  unfold await
  split <;> trivial

variable {c : Client} {heap : Heap}

theorem typed_announce {call : Call} {event : Event} {zc : Nat}
    (typed : ∀ ms, call = .sendRecv ms → HasType event) :
    (c.announce heap call event zc).phase.Typed := by
  unfold announce
  cases call with
  | recvEvent checkQ save =>
    split
    · dsimp only
      split <;> trivial
    · trivial
  | sendRecv ms =>
    split
    · dsimp only
      split
      · exact typed ms rfl
      · trivial
    · exact typed ms rfl

theorem typed_finish (c : Client) (call : Call) (event : Event) :
    (c.finish call event).phase.Typed := by
  unfold finish
  split
  · split <;> trivial
  · split
    · trivial
    · split
      · exact typed_await _ _
      · trivial

theorem typed_advance {d : Client} (typed : c.phase.Typed) (front : c.Typed heap)
    (steps : c.advance heap = some d) : d.phase.Typed := by
  unfold advance at steps
  split at steps
  next call zc phase =>
    obtain ⟨packet, found, rfl⟩ := Option.map_eq_some_iff.mp steps
    refine typed_announce fun ms same => ?_
    rw [Typed, phase, same] at front
    exact front packet found
  next call event len zc phase =>
    rw [phase] at typed
    split at steps
    · cases steps
      cases call with
      | recvEvent checkQ save => trivial
      | sendRecv ms =>
        -- the body is no header
        show HasType _
        rw [HasType, eventGetHeader_body _ _ (by decide)]
        exact typed
    · cases steps
  next =>
    cases steps
    exact typed_finish _ _ _
  next => cases steps

theorem typed_setZc {phase : Phase} (typed : phase.Typed) (zc : Nat) : (phase.setZc zc).Typed := by
  cases phase with
  | body call event len old => cases call <;> exact typed
  | reading call old => trivial
  | _ => exact typed

theorem typed_step (typed : c.phase.Typed) (front : c.Typed heap) (input : Input) :
    (c.step heap input).phase.Typed := by
  cases input with
  | call call =>
    show (c.invoke call).phase.Typed
    unfold invoke
    split
    · exact typed
    · split
      · split <;> trivial
      · trivial
      · exact typed_await c _
  | unsent => exact typed
  | proceed =>
    show ((c.advance heap).getD c).phase.Typed
    cases next : c.advance heap with
    | none => exact typed
    | some d => exact typed_advance typed front next
  | ready =>
    unfold step
    dsimp only
    split
    · trivial
    · exact typed
  | timeout => trivial
  | data chunk => exact typed_setZc typed 0
  | zero =>
    unfold step
    dsimp only
    split
    · trivial
    · exact typed_setZc typed _
  | failed => trivial

/-! ### Runs -/

theorem robust_of (lenOk : c.LenOk) (typed : c.phase.Typed) : c.Robust := by
  unfold LenOk at lenOk
  unfold Robust
  split
  next call event len zc phase =>
    rw [phase] at lenOk
    obtain ⟨nonneg, below⟩ := lenOk
    refine ⟨nonneg, sizeT_of_nonneg (by omega) (by omega), fun there => ?_⟩
    have size : (sizeT len : Int) = len := sizeT_of_nonneg nonneg (by omega)
    have taken : (c.buffer.read (sizeT len)).1.length = min (sizeT len) c.buffer.valid.length :=
      length_take
    rw [taken]
    omega
  next ms event phase =>
    rw [phase] at typed
    exact typed
  next => trivial

end Client

/-- Inputs that may come, where the packet in front announces no negative length and has a type if
one is used. -/
def Client.Decent (heap : Heap) (c : Client) (input : Input) : Prop :=
  c.Accepts heap input ∧ c.NonNegative heap ∧ c.Typed heap

/-- **In every run against a decent peer, every state is robust.** -/
theorem client_robust (heap : Heap) {inputs done : List Input}
    (decent : Along (step heap) (Decent heap) start inputs)
    (begins : done <+: inputs) : (run (step heap) start done).Robust := by
  have both : (run (step heap) start done).LenOk ∧
      (run (step heap) start done).phase.Typed := by
    refine run_keeps (P := fun c : Client => c.LenOk ∧ c.phase.Typed) ?_ ⟨trivial, trivial⟩
      (decent.beginning begins)
    rintro c input ⟨lenOk, typed⟩ ⟨-, nonneg, front⟩
    exact ⟨lenOk.step nonneg input, typed_step typed front input⟩
  exact robust_of both.1 both.2

/-! ### Packets -/

section Front

variable {ok : Client → Prop} {call : Client.Call} {packet : Text}

def packetBuffer (packet : Text) : EslBuffer :=
  ⟨[], packet, replicate (bufStart - packet.length) '\x00'⟩

theorem readPacket_front (ends : EndsPacket '\x00' packet) :
    (packetBuffer packet).readPacket roomyHeap socketLen =
      some (packet, ⟨packet, [], replicate (bufStart - packet.length) '\x00'⟩) := by
  have room : 0 < bufStart - packet.length := by
    have : socketLen < bufStart := by decide
    have := ends.2
    omega
  have next : (packetBuffer packet).next roomyHeap = '\x00' := next_unused roomyHeap room
  exact readPacket_all (by rw [next]; exact ends)

theorem leads_front (calls : start.invoke call =
      up (EslBuffer.create bufStart) (.reading call 0) [])
    (ends : EndsPacket '\x00' packet) (first : ok start)
    (second : ok (up (EslBuffer.create bufStart) (.reading call 0) []))
    (third : ok (up (packetBuffer packet) (.reading call 0) [])) :
    Leads (step roomyHeap) (fun c input => c.Accepts roomyHeap input ∧ ok c)
      start [.call call, .data packet, .proceed]
      ((up ⟨packet, [], replicate (bufStart - packet.length) '\x00'⟩
        (.reading call 0) []).announce roomyHeap call (socketEvent packet) 0) := by
  have writes : (EslBuffer.create bufStart).write roomyHeap bufChunk packet =
      packetBuffer packet := write_unused ends.filled (ends.2.trans (by decide))
  have reads : (up (packetBuffer packet) (.reading call 0) []).advance roomyHeap =
      some ((up ⟨packet, [], replicate (bufStart - packet.length) '\x00'⟩
        (.reading call 0) []).announce roomyHeap call (socketEvent packet) 0) := by
    show ((packetBuffer packet).readPacket roomyHeap socketLen).map _ = _
    rw [readPacket_front ends]
    rfl
  refine Leads.cons ⟨rfl, first⟩ calls (Leads.cons (t := up (packetBuffer packet)
    (.reading call 0) []) ⟨⟨⟨rfl, trivial⟩, ends.filled, ends.2⟩, second⟩ ?_
      (Leads.cons ⟨?_, third⟩ ?_ (Leads.refl _)))
  · rw [← writes]
    rfl
  · show ((up (packetBuffer packet) (.reading call 0) []).advance roomyHeap).isSome = true
    rw [reads]
    rfl
  · show ((up (packetBuffer packet) (.reading call 0) []).advance roomyHeap).getD _ = _
    rw [reads]
    rfl

end Front

def replyPacket : Text := "Content-Type: command/reply\nContent-Length: 2\n\n"

/-- The head of the reply has been read, and `unread` has come behind it. -/
def replied (unread : Text) : Client :=
  up ⟨replyPacket, unread, replicate (bufStart - replyPacket.length - unread.length) '\x00'⟩
    (.body (.sendRecv 0) (socketEvent replyPacket) 2 0) []

/-- The two bytes are there. -/
theorem client_robust_reply :
    ∃ (inputs : List Input) (d : Client),
      Leads (step roomyHeap) (Decent roomyHeap) start inputs d ∧
        d.phase = .body (.sendRecv 0) (socketEvent replyPacket) 2 0 ∧
        d.buffer.valid = "ok" ∧ d.Robust := by
  have found : ∀ packet ∈ (packetBuffer replyPacket).readPacket roomyHeap socketLen,
      packet.1 = replyPacket := by
    rw [readPacket_front (by decide +kernel)]
    rintro packet ⟨⟩
    rfl
  have announces : contentLen (socketEvent replyPacket) = some 2 := by decide +kernel
  have front : Leads (step roomyHeap) (Decent roomyHeap) start
      [.call (.sendRecv 0), .data replyPacket, .proceed] (replied []) := by
    have leads := @leads_front (fun c => c.NonNegative roomyHeap ∧ c.Typed roomyHeap) (.sendRecv 0)
      replyPacket rfl (by decide +kernel) ⟨trivial, trivial⟩
      ⟨nofun, nofun⟩ ⟨fun packet member len announced => ?_, fun packet member => ?_⟩
    · rw [announce, announces] at leads
      exact leads
    · rw [found packet member, announces] at announced
      cases announced
      decide
    · rw [found packet member, HasType]
      decide +kernel
  have writes : (replied []).buffer.write roomyHeap bufChunk "ok" = (replied "ok").buffer :=
    write_unused (by decide) (by decide)
  have filled : Leads (step roomyHeap) (Decent roomyHeap) (replied []) [.data "ok"]
      (replied "ok") := by
    refine Leads.cons ⟨⟨⟨rfl, trivial⟩, by decide, by decide⟩, trivial, trivial⟩ ?_
      (Leads.refl _)
    exact congrArg (fun buffer => { replied [] with buffer }) writes
  have robust {inputs : List Input} {d : Client}
      (leads : Leads (step roomyHeap) (Decent roomyHeap) start inputs d) :
      d.Robust := by
    obtain ⟨decent, rfl⟩ := leads
    exact client_robust roomyHeap decent (prefix_refl _)
  exact ⟨_, _, front.append filled, rfl, rfl, robust (front.append filled)⟩

def negativePacket : Text := "Content-Length: -1\n\n"

/-- **A negative length, and a missing type**: the first leads to a body of length -1, the second to
an event whose type is compared though there is none. -/
theorem peer_breaks_client :
    (∃ (inputs : List Input) (d : Client),
      Leads (step roomyHeap) (Accepts roomyHeap) start inputs d ∧
        d.phase = .body eslRecv (socketEvent negativePacket) (-1) 0 ∧ ¬ d.Robust) ∧
      ∃ (inputs : List Input) (d : Client),
        Leads (step roomyHeap) (Accepts roomyHeap) start inputs d ∧
          d.phase = .parsed (.sendRecv 0) (socketEvent smallPacket) ∧ ¬ d.Robust := by
  constructor
  · have leads := @leads_front (fun _ => True) eslRecv negativePacket rfl (by decide +kernel)
      trivial trivial trivial
    have announces : contentLen (socketEvent negativePacket) = some (-1) := by decide +kernel
    rw [announce, announces] at leads
    exact ⟨_, _, leads.mono fun _ _ => And.left, rfl, fun robust => absurd robust.1 (by decide)⟩
  · have leads := @leads_front (fun _ => True) (.sendRecv 0) smallPacket rfl (by decide +kernel)
      trivial trivial trivial
    have announces : contentLen (socketEvent smallPacket) = none := by decide +kernel
    rw [announce, announces] at leads
    refine ⟨_, _, leads.mono fun _ _ => And.left, rfl, fun robust => ?_⟩
    have typed : HasType (socketEvent smallPacket) := robust
    rw [HasType] at typed
    exact absurd typed (by decide +kernel)

end FreeSwitch
