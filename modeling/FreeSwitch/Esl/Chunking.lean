/-
**Chunks of an ESL stream: when the cut does not matter, and when it does.**

The search for the end of a packet looks at the byte behind the bytes in use. In memory that has not
been used before this byte is zero; once the bytes in use have been moved to the front of the
buffer, it is one of an earlier packet.

* **`framing_independent`**: two framed receptions of a stream return the same events;
* `delivered_prefix`: and at every moment a beginning of them;
* `exists_reception`: whatever the chunks are, they are received;
* **`stale_byte_ends_packet`**: a line feed left from an earlier body ends a packet too early.
-/

import FreeSwitch.Esl.Framing

namespace FreeSwitch

open CString Client EslBuffer Input List Option Reception Run

/-! ### Memory that has not been used -/

namespace Client

def held (c : Client) : Nat := c.buffer.consumed.length + c.buffer.valid.length

def Fresh (c : Client) : Prop :=
  c.buffer.behind = replicate (bufStart - c.held) '\x00'

section Fresh

variable {heap : Heap} {save : Bool} {c d : Client} (fresh : c.Fresh)

include fresh

theorem Fresh.read {n : Nat} (reads : d.buffer = (c.buffer.read n).2) : d.Fresh ∧ d.held = c.held := by
  have held : d.held = c.held := by
    unfold held
    rw [reads]
    show (c.buffer.consumed ++ c.buffer.valid.take n).length + (c.buffer.valid.drop n).length = _
    rw [length_append, length_take, length_drop]
    omega
  refine ⟨?_, held⟩
  unfold Fresh at fresh ⊢
  rw [held, reads]
  exact fresh

theorem Fresh.same (same : d.buffer = c.buffer) : d.Fresh ∧ d.held = c.held := by
  unfold Fresh held at fresh ⊢
  rw [same]
  exact ⟨fresh, rfl⟩

theorem Fresh.advance (steps : c.advance heap = some d) : d.Fresh ∧ d.held = c.held := by
  unfold Client.advance at steps
  split at steps
  next =>
    obtain ⟨packet, found, rfl⟩ := map_eq_some_iff.mp steps
    obtain ⟨n, -, rfl⟩ := map_eq_some_iff.mp found
    exact fresh.read (by rw [announce_buffer])
  next =>
    split at steps
    · cases steps
      exact fresh.read rfl
    · cases steps
  next =>
    cases steps
    exact fresh.same (finish_buffer _ _ _)
  next => cases steps

theorem Fresh.write {chunk : Text} (filled : chunk ≠ [])
    (room : c.held + chunk.length ≤ bufStart)
    (writes : d.buffer = c.buffer.write heap bufChunk chunk) :
    d.Fresh ∧ d.held = c.held + chunk.length := by
  have space : chunk.length ≤ c.buffer.behind.length := by
    rw [fresh, length_replicate]
    omega
  rw [write_room heap bufChunk c.buffer filled space] at writes
  have held : d.held = c.held + chunk.length := by
    unfold held
    rw [writes]
    show c.buffer.consumed.length + (c.buffer.valid ++ chunk).length = _
    rw [length_append]
    omega
  refine ⟨?_, held⟩
  unfold Fresh at fresh ⊢
  rw [held, writes]
  show c.buffer.behind.drop chunk.length = _
  rw [fresh, drop_replicate]
  congr 1
  omega

theorem Fresh.step {input : Input} (fine : Receiving heap save c input)
    (room : c.held + input.bytes.length ≤ bufStart) :
    (c.step heap input).Fresh ∧ (c.step heap input).held = c.held + input.bytes.length := by
  cases fed_step fine with
  | call => exact fresh.same (invoke_buffer c _)
  | proceed steps => exact fresh.advance steps
  | data _ filled => exact fresh.write filled room rfl

theorem Fresh.run {inputs : List Input}
    (accepted : Along (Client.step heap) (Receiving heap save) c inputs)
    (room : c.held + (inputs.flatMap bytes).length ≤ bufStart) :
    (run (Client.step heap) c inputs).Fresh ∧
      (run (Client.step heap) c inputs).held = c.held + (inputs.flatMap bytes).length := by
  induction inputs generalizing c with
  | nil => exact ⟨fresh, rfl⟩
  | cons input inputs ih =>
    rw [flatMap_cons, length_append] at room ⊢
    obtain ⟨next, held⟩ := fresh.step accepted.1 (by omega)
    obtain ⟨last, total⟩ := ih next accepted.2 (by omega)
    exact ⟨last, by rw [run_cons, total, held, Nat.add_assoc]⟩

theorem Fresh.clean (room : c.held < bufStart) : c.Clean heap := by
  have zero : c.buffer.next heap = '\x00' := by
    obtain ⟨k, rest⟩ : ∃ k, bufStart - c.held = k + 1 := ⟨bufStart - c.held - 1, by omega⟩
    rw [EslBuffer.next, fresh, rest, replicate_succ, headD_cons]
  unfold Clean
  split
  · intro lf
    rw [zero] at lf
    cases lf
  · trivial

end Fresh

theorem fresh_start : start.Fresh := rfl

end Client

/-- **For a stream shorter than the buffer the byte behind never matters.** -/
theorem Reception.framed_of_short {heap : Heap} {save : Bool} {stream : Text}
    (r : Reception heap save stream) (short : stream.length < bufStart)
    (nonneg : ∀ done, done <+: r.inputs →
      (run (Client.step heap) Client.start done).NonNegative heap) : r.Framed := by
  intro done begins
  refine ⟨?_, nonneg done begins⟩
  obtain ⟨more, shape⟩ := begins
  have total := congrArg length r.whole
  rw [← shape, flatMap_append, length_append, length_append] at total
  have nothing : Client.start.held = 0 := rfl
  obtain ⟨fresh, held⟩ := Client.fresh_start.run (r.accepted.beginning ⟨more, shape⟩) (by omega)
  exact fresh.clean (by omega)

/-! ### Runs of `esl_recv` -/

namespace Client

def eslRecv : Call := .recvEvent false false

def up (b : EslBuffer) (phase : Phase) (events : List Event) : Client := ⟨b, phase, [], true, events⟩

def Sound (heap : Heap) (c : Client) (input : Input) : Prop :=
  Receiving heap false c input ∧ c.NonNegative heap

section Steps

variable {heap : Heap} {b : EslBuffer} {events : List Event}

theorem nonNegative_reading {call : Call} {zc : Nat}
    (nonneg : ∀ packet ∈ b.readPacket heap socketLen,
      ∀ len ∈ contentLen (socketEvent packet.1), 0 ≤ len) :
    (up b (.reading call zc) events).NonNegative heap := nonneg

theorem readPacket_none (absent : scanPacket (b.next heap) b.valid = none) :
    b.readPacket heap socketLen = none := by
  rw [EslBuffer.readPacket, absent]
  rfl

/-- The bytes are one packet, with `next` behind them. -/
def EndsPacket (next : Char) (packet : Text) : Prop :=
  (scanPacket next packet).any (packet.length ≤ ·) ∧ packet.length ≤ socketLen

instance (next : Char) (packet : Text) : Decidable (EndsPacket next packet) :=
  inferInstanceAs (Decidable (_ ∧ _))

theorem EndsPacket.filled {next : Char} {packet : Text} (ends : EndsPacket next packet) :
    packet ≠ [] := by
  rintro rfl
  exact absurd ends.1 (by simp [scanPacket])

theorem readPacket_all (ends : EndsPacket (b.next heap) b.valid) :
    b.readPacket heap socketLen = some (b.valid, ⟨b.consumed ++ b.valid, [], b.behind⟩) := by
  obtain ⟨ends, short⟩ := ends
  obtain ⟨n, ends, all⟩ := (Option.any_eq_true ..).mp ends
  have within : b.valid.length ≤ min n socketLen :=
    Nat.le_min.mpr ⟨of_decide_eq_true all, short⟩
  rw [EslBuffer.readPacket, ends, Option.map_some, EslBuffer.read, take_of_length_le within,
    drop_eq_nil_of_le within]

theorem leads_call :
    Leads (step heap) (Sound heap) (up b .idle events) [.call eslRecv]
      (up b (.reading eslRecv 0) events) :=
  Leads.cons ⟨⟨rfl, rfl⟩, trivial⟩ rfl (Leads.refl _)

theorem leads_data {after : EslBuffer} {chunk : Text} (filled : chunk ≠ [])
    (short : chunk.length ≤ socketLen) (absent : scanPacket (b.next heap) b.valid = none)
    (writes : b.write heap bufChunk chunk = after) :
    Leads (step heap) (Sound heap) (up b (.reading eslRecv 0) events) [.data chunk]
      (up after (.reading eslRecv 0) events) := by
  have nothing := readPacket_none absent
  have stuck : (up b (.reading eslRecv 0) events).advance heap = none := by
    show (b.readPacket heap socketLen).map _ = none
    rw [nothing]
    rfl
  refine Leads.cons ⟨⟨⟨⟨stuck, trivial⟩, filled, short⟩, trivial⟩, ?_⟩ ?_ (Leads.refl _)
  · refine nonNegative_reading fun packet found => ?_
    rw [nothing] at found
    cases found
  · subst writes
    rfl

theorem leads_proceed {c d : Client} (steps : c.advance heap = some d)
    (nonneg : c.NonNegative heap) :
    Leads (step heap) (Sound heap) c [.proceed] d := by
  refine Leads.cons ⟨⟨?_, trivial⟩, nonneg⟩ ?_ (Leads.refl d)
  · show (c.advance heap).isSome
    rw [steps]
    rfl
  · simp [step, steps]

theorem leads_return {event : Event} (stays : disconnects event = false) :
    Leads (step heap) (Sound heap) (up b (.parsed eslRecv event) events) [.proceed]
      (up b .idle (events ++ [event])) :=
  leads_proceed (by simp [advance, up, finish, eslRecv, stays, deliver]) trivial

/-- A packet without a body. -/
def OnePacket (next : Char) (packet : Text) : Prop :=
  EndsPacket next packet ∧ contentLen (socketEvent packet) = none ∧
    disconnects (socketEvent packet) = false

instance (next : Char) (packet : Text) : Decidable (OnePacket next packet) :=
  inferInstanceAs (Decidable (_ ∧ _ ∧ _))

theorem leads_packet (one : OnePacket (b.next heap) b.valid) :
    Leads (step heap) (Sound heap) (up b (.reading eslRecv 0) events) [.proceed, .proceed]
      (up ⟨b.consumed ++ b.valid, [], b.behind⟩ .idle (events ++ [socketEvent b.valid])) := by
  obtain ⟨ends, unbodied, stays⟩ := one
  have found := readPacket_all ends
  have nonneg : (up b (.reading eslRecv 0) events).NonNegative heap := by
    refine nonNegative_reading fun packet member => ?_
    rw [found] at member
    cases member
    rw [unbodied]
    nofun
  have reads : (up b (.reading eslRecv 0) events).advance heap =
      some (up ⟨b.consumed ++ b.valid, [], b.behind⟩ (.parsed eslRecv (socketEvent b.valid))
        events) := by
    show (b.readPacket heap socketLen).map _ = _
    rw [found, map_some, announce, unbodied]
    rfl
  exact (leads_proceed reads nonneg).append (leads_return stays)

theorem leads_event {after : EslBuffer} {chunk : Text} (empty : b.valid = [])
    (writes : b.write heap bufChunk chunk = after) (valid : after.valid = chunk)
    (one : OnePacket (after.next heap) chunk) :
    Leads (step heap) (Sound heap) (up b .idle events)
      [.call eslRecv, .data chunk, .proceed, .proceed]
      (up ⟨after.consumed ++ chunk, [], after.behind⟩ .idle (events ++ [socketEvent chunk])) := by
  have absent : scanPacket (b.next heap) b.valid = none := by
    rw [empty]
    rfl
  have returned := @leads_packet heap after events (valid.symm ▸ one)
  rw [valid] at returned
  exact leads_call.append ((leads_data one.1.filled one.1.2 absent writes).append returned)

theorem leads_announced {len : Int} (ends : EndsPacket (b.next heap) b.valid)
    (announces : contentLen (socketEvent b.valid) = some len) (nonneg : 0 ≤ len)
    (room : heap.alloc (sizeT (len + 1)) = true) :
    Leads (step heap) (Sound heap) (up b (.reading eslRecv 0) events) [.proceed]
      (up ⟨b.consumed ++ b.valid, [], b.behind⟩ (.body eslRecv (socketEvent b.valid) len 0)
        events) := by
  have found := readPacket_all ends
  refine leads_proceed ?_ (nonNegative_reading fun packet member => ?_)
  · show (b.readPacket heap socketLen).map _ = _
    rw [found, map_some, announce, announces]
    dsimp only
    rw [if_pos room]
    rfl
  · rw [found] at member
    cases member
    rw [announces]
    rintro _ ⟨⟩
    exact nonneg

theorem leads_chunk {after : EslBuffer} {chunk : Text} {event : Event} {len : Int}
    (filled : chunk ≠ []) (short : chunk.length ≤ socketLen) (lacks : b.valid.length < len)
    (writes : b.write heap bufChunk chunk = after) :
    Leads (step heap) (Sound heap) (up b (.body eslRecv event len 0) events) [.data chunk]
      (up after (.body eslRecv event len 0) events) := by
  have stuck : (up b (.body eslRecv event len 0) events).advance heap = none :=
    if_neg (not_le.mpr lacks)
  refine Leads.cons ⟨⟨⟨⟨stuck, trivial⟩, filled, short⟩, trivial⟩, trivial⟩ ?_
    (Leads.refl _)
  subst writes
  rfl

theorem leads_filled {event : Event} {len : Nat} (below : len < 2 ^ 64)
    (whole : b.valid.length = len)
    (stays : disconnects { event with body := some b.valid } = false) :
    Leads (step heap) (Sound heap) (up b (.body eslRecv event len 0) events)
      [.proceed, .proceed] (up ⟨b.consumed ++ b.valid, [], b.behind⟩ .idle
        (events ++ [{ event with body := some b.valid }])) := by
  have size : sizeT len = len := by
    have same := sizeT_of_nonneg (Int.natCast_nonneg len) (by exact_mod_cast below)
    exact_mod_cast same
  have taken : b.read len = (b.valid, ⟨b.consumed ++ b.valid, [], b.behind⟩) := by
    rw [EslBuffer.read, take_of_length_le whole.le, drop_eq_nil_of_le whole.le]
  have reads : (up b (.body eslRecv event len 0) events).advance heap =
      some (up ⟨b.consumed ++ b.valid, [], b.behind⟩
        (.parsed eslRecv { event with body := some b.valid }) events) := by
    simp only [advance, up, size, taken, whole, le_refl, if_true]
  exact (leads_proceed reads trivial).append (leads_return stays)

end Steps

end Client

/-! ### The cut does not matter -/

def Reception.chunks {heap : Heap} {save : Bool} {stream : Text}
    (r : Reception heap save stream) : List Text :=
  (r.inputs.map bytes).filter (· ≠ [])

/-- A run of `esl_recv` up to a call that waits. -/
def Reception.ofLeads {heap : Heap} {stream : Text} {inputs : List Input} {d : Client}
    (leads : Leads (step heap) (Sound heap) start inputs d)
    (whole : inputs.flatMap bytes = stream) (waits : d.Receives heap) :
    Reception heap false stream where
  inputs := inputs
  left := []
  accepted := (leads.mono fun _ _ => And.left).1
  whole := (append_nil _).trans whole
  drained := by
    rw [leads.2]
    exact Or.inl ⟨waits, rfl⟩

section OfLeads

variable {heap : Heap} {stream : Text} {inputs : List Input} {d : Client}
  (leads : Leads (step heap) (Sound heap) start inputs d)
  (whole : inputs.flatMap bytes = stream) (waits : d.Receives heap)

theorem Reception.events_ofLeads : (ofLeads leads whole waits).events = d.delivered :=
  congrArg delivered leads.2

theorem Reception.framed_ofLeads (short : stream.length < bufStart)
    (last : d.NonNegative heap) : (ofLeads leads whole waits).Framed :=
  framed_of_short _ short fun _ begins => leads.always last begins

end OfLeads

/-- **Framing does not depend on the chunks**: two receptions of a stream return the same events,
where the buffer can be grown, no packet is ended by a byte behind the bytes in use and none
announces a negative length. -/
theorem framing_independent (save : Bool) (stream : Text) (h₁ h₂ : Heap)
    (sameAlloc : h₁.alloc = h₂.alloc) (firstGrows : h₁.Grows) (secondGrows : h₂.Grows)
    (first : Reception h₁ save stream) (second : Reception h₂ save stream)
    (firstFramed : first.Framed) (secondFramed : second.Framed) :
    first.events = second.events := by
  rw [firstFramed.events_eq firstGrows, secondFramed.events_eq secondGrows, sameAlloc]

def roomyHeap : Heap where
  alloc _ := true
  realloc _ := true
  grown n := replicate n '\x00'
  grown_length _ := length_replicate
  outside := '\x00'

theorem roomyHeap_grows : roomyHeap.Grows := fun _ => rfl

theorem write_unused {heap : Heap} {used valid chunk : Text} {n : Nat} (filled : chunk ≠ [])
    (room : chunk.length ≤ n) :
    (⟨used, valid, replicate n '\x00'⟩ : EslBuffer).write heap bufChunk chunk =
      ⟨used, valid ++ chunk, replicate (n - chunk.length) '\x00'⟩ := by
  rw [write_room heap bufChunk _ filled (by rw [length_replicate]; exact room),
    drop_replicate]

theorem next_unused (heap : Heap) {used valid : Text} {n : Nat} (room : 0 < n) :
    (⟨used, valid, replicate n '\x00'⟩ : EslBuffer).next heap = '\x00' := by
  obtain ⟨m, rfl⟩ := Nat.exists_eq_succ_of_ne_zero room.ne'
  rfl

theorem receives_empty {heap : Heap} {used behind : Text} {events : List Event} :
    (up ⟨used, [], behind⟩ (.reading eslRecv 0) events).Receives heap :=
  ⟨rfl, trivial⟩

theorem nonNegative_empty {heap : Heap} {used behind : Text} {events : List Event} :
    (up ⟨used, [], behind⟩ (.reading eslRecv 0) events).NonNegative heap :=
  nonNegative_reading (by rw [readPacket_none rfl]; nofun)

def smallPacket : Text := "A: b\n\n"

theorem leads_whole :
    Leads (step roomyHeap) (Sound roomyHeap) start
      [.call eslRecv, .data smallPacket, .proceed, .proceed, .call eslRecv]
      (up ⟨smallPacket, [], replicate (bufStart - 6) '\x00'⟩
        (.reading eslRecv 0) [socketEvent smallPacket]) := by
  have writes : (create bufStart).write roomyHeap bufChunk smallPacket =
      ⟨[], smallPacket, replicate (bufStart - 6) '\x00'⟩ :=
    write_unused (by decide) (by decide)
  refine (leads_event rfl writes rfl ?_).append leads_call
  rw [next_unused roomyHeap (by decide)]
  decide +kernel

theorem leads_cut :
    Leads (step roomyHeap) (Sound roomyHeap) start
      [.call eslRecv, .data "A: b\n", .data ['\n'], .proceed, .proceed,
        .call eslRecv]
      (up ⟨smallPacket, [], replicate (bufStart - 6) '\x00'⟩
        (.reading eslRecv 0) [socketEvent smallPacket]) := by
  have writes : (create bufStart).write roomyHeap bufChunk "A: b\n" =
      ⟨[], "A: b\n", replicate (bufStart - 5) '\x00'⟩ :=
    write_unused (by decide) (by decide)
  have again : (⟨[], "A: b\n", replicate (bufStart - 5) '\x00'⟩ : EslBuffer).write
      roomyHeap bufChunk ['\n'] = ⟨[], smallPacket, replicate (bufStart - 6) '\x00'⟩ :=
    write_unused (by decide) (by decide)
  refine leads_call.append ((leads_data (by decide) (by decide) rfl writes).append
    ((leads_data (by decide) (by decide) ?_ again).append
      ((leads_packet ?_).append leads_call)))
  · rw [next_unused roomyHeap (by decide)]
    decide +kernel
  · rw [next_unused roomyHeap (by decide)]
    decide +kernel

/-- A packet in one chunk, and cut within its end. -/
theorem framing_independent_cut :
    ∃ first second : Reception roomyHeap false smallPacket,
      first.chunks = [smallPacket] ∧ second.chunks = ["A: b\n".toList, ['\n']] ∧
        first.Framed ∧ second.Framed ∧ first.events = second.events := by
  have one := framed_ofLeads leads_whole rfl receives_empty (by decide) nonNegative_empty
  have two := framed_ofLeads leads_cut rfl receives_empty (by decide) nonNegative_empty
  exact ⟨_, _, by decide, by decide, one, two, framing_independent false _ _ _ rfl
    roomyHeap_grows roomyHeap_grows _ _ one two⟩

/-- **No event comes early or out of order**: at every moment of a framed reception, what was returned
is a beginning of the events of the stream. -/
theorem delivered_prefix {heap : Heap} {save : Bool} {stream : Text}
    {r : Reception heap save stream} (framed : r.Framed) (grows : heap.Grows) {done : List Input}
    (begins : done <+: r.inputs) :
    (run (step heap) start done).delivered <+: frames save heap.alloc stream := by
  obtain ⟨more, shape⟩ := begins
  exact ⟨_, framed.promise_eq grows shape⟩

theorem delivered_prefix_whole :
    (run (step roomyHeap) start [.call eslRecv, .data smallPacket, .proceed, .proceed]).delivered <+:
      frames false roomyHeap.alloc smallPacket :=
  delivered_prefix (framed_ofLeads leads_whole rfl receives_empty (by decide) nonNegative_empty)
    roomyHeap_grows ⟨_, rfl⟩

/-- **Whatever the chunks are, they are received**: calls of `esl_recv_event` take them in one after
the other, up to a call that waits with none left, or to the end of the connection. -/
theorem exists_reception (heap : Heap) (save : Bool) {chunks : List Text}
    (sized : ∀ chunk ∈ chunks, chunk ≠ [] ∧ chunk.length ≤ socketLen) :
    ∃ (r : Reception heap save chunks.flatten) (rest : List Text),
      r.chunks ++ rest = chunks ∧ r.left = rest.flatten := by
  obtain ⟨inputs, rest, d, ⟨accepted, rfl⟩, parts, drained⟩ :=
    exists_drained heap (receiver_start save) sized
  have whole : inputs.flatMap bytes ++ rest.flatten = chunks.flatten := by
    rw [← parts, flatten_append, flatten_filter_ne_nil]
    rfl
  exact ⟨⟨inputs, _, accepted, whole, drained⟩, rest, parts, rfl⟩

theorem exists_reception_cut :
    ∃ (r : Reception roomyHeap false smallPacket) (rest : List Text),
      r.chunks ++ rest = ["A: b\n".toList, ['\n']] ∧ r.left = rest.flatten :=
  @exists_reception roomyHeap false ["A: b\n", ['\n']] (by decide)

/-! ### A byte of an earlier body -/

def bulkPacket : Text := "Content-Length: 6553500\n\n"

def bulkEvent : Event :=
  { socketEvent bulkPacket with body := some (replicate 6553500 '\n') }

def longLine : Text := "A: " ++ replicate 96 'b' ++ ['\n']

def bulkInputs : List Input :=
  [.call eslRecv, .data bulkPacket, .proceed] ++
    (replicate 100 (.data (replicate socketLen '\n')) ++ [.proceed, .proceed])

def chunkInputs (first second : Text) : List Input :=
  [.call eslRecv, .data first, .proceed, .proceed] ++
    ([.call eslRecv, .data second, .proceed, .proceed] ++ [.call eslRecv])

theorem leads_fill {heap : Heap} {used : Text} {event : Event} {len : Int} {rest m : Nat}
    {events : List Event} (some_ : 0 < m) (short : m ≤ socketLen) (n a : Nat)
    (below : ((a + m * n : Nat) : Int) ≤ len) :
    Leads (step heap) (Sound heap)
      (up ⟨used, replicate a '\n', replicate (rest + m * n) '\x00'⟩
        (.body eslRecv event len 0) events)
      (replicate n (.data (replicate m '\n')))
      (up ⟨used, replicate (a + m * n) '\n', replicate rest '\x00'⟩
        (.body eslRecv event len 0) events) := by
  induction n generalizing a with
  | zero => exact Leads.refl _
  | succ n ih =>
    rw [Nat.mul_succ] at below ⊢
    have filled : replicate m '\n' ≠ [] := by
      rw [ne_eq, replicate_eq_nil_iff]
      exact some_.ne'
    have writes : (⟨used, replicate a '\n', replicate (rest + (m * n + m)) '\x00'⟩ :
        EslBuffer).write heap bufChunk (replicate m '\n') =
        ⟨used, replicate (a + m) '\n', replicate (rest + m * n) '\x00'⟩ := by
      rw [write_unused filled (by rw [length_replicate]; omega),
        replicate_append_replicate, length_replicate,
        show rest + (m * n + m) - m = rest + m * n by omega]
    have later := ih (a + m) (by omega)
    rw [show a + m + m * n = a + (m * n + m) by omega] at later
    refine (leads_chunk filled ?_ ?_ writes).append later
    · rw [length_replicate]
      exact short
    · show (((replicate a '\n').length : Nat) : Int) < len
      rw [length_replicate]
      omega

theorem leads_bulk :
    Leads (step roomyHeap) (Sound roomyHeap) start bulkInputs
      (up ⟨bulkPacket ++ replicate 6553500 '\n', [], replicate 75 '\x00'⟩ .idle
        [bulkEvent]) := by
  have writes : (create bufStart).write roomyHeap bufChunk bulkPacket =
      ⟨[], bulkPacket, replicate (75 + 65535 * 100) '\x00'⟩ :=
    write_unused (by decide) (by decide)
  have announced : Leads (step roomyHeap) (Sound roomyHeap)
      (up ⟨[], bulkPacket, replicate (75 + 65535 * 100) '\x00'⟩
        (.reading eslRecv 0) []) [.proceed]
      (up ⟨bulkPacket, replicate 0 '\n', replicate (75 + 65535 * 100) '\x00'⟩
        (.body eslRecv (socketEvent bulkPacket) (6553500 : Nat) 0) []) := by
    refine leads_announced ?_ (by decide +kernel) (Int.natCast_nonneg _) rfl
    rw [next_unused roomyHeap (by decide)]
    decide +kernel
  have stays : disconnects bulkEvent = false := by
    have typeless : headerIs bulkEvent "content-type" "text/disconnect-notice" = false := by
      rw [headerIs, bulkEvent, eventGetHeader_body _ _ (by decide)]
      decide +kernel
    rw [disconnects, typeless, Bool.false_and, Bool.false_and]
  have filled : Leads (step roomyHeap) (Sound roomyHeap)
      (up ⟨bulkPacket, replicate 6553500 '\n', replicate 75 '\x00'⟩
        (.body eslRecv (socketEvent bulkPacket) (6553500 : Nat) 0) [])
      [.proceed, .proceed]
      (up ⟨bulkPacket ++ replicate 6553500 '\n', [], replicate 75 '\x00'⟩ .idle
        [bulkEvent]) :=
    leads_filled (by decide) length_replicate stays
  exact leads_call.append ((leads_data (by decide) (by decide) rfl writes).append
    (announced.append ((leads_fill (by decide) le_rfl 100 0 (by decide)).append filled)))

theorem write_over_read {heap : Heap} {front chunk : Text} {n m : Nat} (full : m < chunk.length)
    (covers : front.length ≤ chunk.length) (room : chunk.length ≤ front.length + n) :
    (⟨front ++ replicate n '\n', [], replicate m '\x00'⟩ : EslBuffer).write heap bufChunk
        chunk =
      ⟨[], chunk, replicate (front.length + n - chunk.length) '\n' ++
        replicate m '\x00'⟩ := by
  have filled : chunk ≠ [] := by
    rintro rfl
    exact absurd full (Nat.not_lt_zero m)
  have memory : (⟨front ++ replicate n '\n', [], replicate m '\x00'⟩ :
      EslBuffer).compact.behind =
      front ++ (replicate n '\n' ++ replicate m '\x00') := by
    simp [compact]
  have size : chunk.length - front.length ≤ (replicate n '\n').length := by
    rw [length_replicate]
    omega
  rw [write_compact heap bufChunk _ filled, memory, drop_append,
    drop_eq_nil_of_le covers, nil_append, drop_append_of_le_length size,
    drop_replicate, nil_append, show n - (chunk.length - front.length) =
      front.length + n - chunk.length by omega]
  · rw [length_replicate]
    exact full
  · rw [memory, length_append, length_append, length_replicate,
      length_replicate]
    omega

theorem write_over_bulk {chunk : Text} (long : 75 < chunk.length)
    (short : chunk.length ≤ socketLen) :
    (⟨bulkPacket ++ replicate 6553500 '\n', [], replicate 75 '\x00'⟩ : EslBuffer).write
        roomyHeap bufChunk chunk =
      ⟨[], chunk, replicate (6553525 - chunk.length) '\n' ++ replicate 75 '\x00'⟩ := by
  have front : bulkPacket.length = 25 := by decide
  have covers : bulkPacket.length ≤ chunk.length := by
    rw [front]
    omega
  have room : chunk.length ≤ bulkPacket.length + 6553500 := by
    rw [front]
    refine short.trans ?_
    rw [socketLen]
    norm_num
  have total : 25 + 6553500 = 6553525 := by norm_num
  rw [write_over_read long covers room, front, total]

theorem write_over_feeds {heap : Heap} {used chunk behind : Text} {n : Nat} (filled : chunk ≠ [])
    (room : chunk.length ≤ n) :
    (⟨used, [], replicate n '\n' ++ behind⟩ : EslBuffer).write heap bufChunk chunk =
      ⟨used, chunk, replicate (n - chunk.length) '\n' ++ behind⟩ := by
  rw [write_room heap bufChunk _ filled]
  · rw [nil_append, drop_append_of_le_length (by rw [length_replicate]; exact room),
      drop_replicate]
  · show chunk.length ≤ (replicate n '\n' ++ behind).length
    rw [length_append, length_replicate]
    omega

theorem next_feeds (heap : Heap) {used valid behind : Text} {n : Nat} (room : 0 < n) :
    (⟨used, valid, replicate n '\n' ++ behind⟩ : EslBuffer).next heap = '\n' := by
  obtain ⟨m, rfl⟩ := Nat.exists_eq_succ_of_ne_zero room.ne'
  rfl

theorem leads_two {first second : Text} (long : 75 < first.length) (one : OnePacket '\n' first)
    (small : second.length < 100) (other : OnePacket '\n' second) :
    Leads (step roomyHeap) (Sound roomyHeap)
      (up ⟨bulkPacket ++ replicate 6553500 '\n', [], replicate 75 '\x00'⟩ .idle
        [bulkEvent])
      (chunkInputs first second)
      (up ⟨first ++ second, [], replicate (6553525 - first.length - second.length) '\n' ++
          replicate 75 '\x00'⟩ (.reading eslRecv 0)
        [bulkEvent, socketEvent first, socketEvent second]) := by
  have short : first.length ≤ 65535 := one.1.2
  refine (leads_event rfl (write_over_bulk long short) rfl ?_).append
    ((leads_event rfl (write_over_feeds other.1.filled (by omega)) rfl ?_).append leads_call)
  · rwa [next_feeds roomyHeap (by omega)]
  · rwa [next_feeds roomyHeap (by omega)]

theorem bytes_chunks (first second : Text) :
    (bulkInputs ++ chunkInputs first second).flatMap bytes =
      bulkInputs.flatMap bytes ++ (first ++ second) := by
  rw [flatMap_append]
  simp [chunkInputs, bytes]

theorem nul_not_mem_bulk : '\x00' ∉ bulkInputs.flatMap bytes := by
  intro member
  obtain ⟨input, inside, nul⟩ := mem_flatMap.mp member
  simp only [bulkInputs, mem_append, mem_cons, not_mem_nil, or_false,
    mem_replicate] at inside
  rcases inside with (rfl | rfl | rfl) | ⟨-, rfl⟩ | rfl | rfl
  · exact not_mem_nil nul
  · exact absurd nul (by decide)
  · exact not_mem_nil nul
  · cases eq_of_mem_replicate nul
  · exact not_mem_nil nul
  · exact not_mem_nil nul

/-- **A line feed left from an earlier body ends a packet.** Behind a body of line feeds comes the
packet `A: b…b`, `B: c`, cut behind its first line or behind its second: the calls return two events
each time, but not the same. -/
theorem stale_byte_ends_packet :
    ∃ (stream : Text) (first second : Reception roomyHeap false stream),
      '\x00' ∉ stream ∧ first.events ≠ second.events := by
  have early := leads_bulk.append (@leads_two longLine "B: c\n\n" (by decide)
    (by decide +kernel) (by decide) (by decide +kernel))
  have late := leads_bulk.append (@leads_two (longLine ++ "B: c\n") ['\n'] (by decide)
    (by decide +kernel) (by decide) (by decide +kernel))
  have whole : (bulkInputs ++ chunkInputs (longLine ++ "B: c\n") ['\n']).flatMap
      bytes =
        (bulkInputs ++ chunkInputs longLine "B: c\n\n").flatMap bytes := by
    rw [bytes_chunks, bytes_chunks, append_assoc]
    rfl
  refine ⟨_, ofLeads early rfl receives_empty,
    ofLeads late whole receives_empty, ?_, ?_⟩
  · rw [bytes_chunks, mem_append, not_or]
    exact ⟨nul_not_mem_bulk, by decide⟩
  · rw [events_ofLeads, events_ofLeads]
    intro same
    have third : socketEvent "B: c\n\n" = socketEvent ['\n'] :=
      (cons.inj (cons.inj (cons.inj same).2).2).1
    exact absurd (congrArg (fun e => e.list.length) third) (by decide +kernel)

end FreeSwitch
