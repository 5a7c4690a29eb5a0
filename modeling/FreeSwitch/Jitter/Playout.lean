/-
**The order in which frames are played.**

A search does not ask whether a frame was read before, and it finds stale frames as well. What keeps
the frames in order is that every read moves the place in the stream on, and looks only for frames
behind the last one it returned.

* **`playout_order`**: the order of the frames, in a run without synchronisation.
-/

import FreeSwitch.Jitter.Structure

namespace FreeSwitch

open List Stfu

open Fallible (Ends)

structure StfuFrame.Carries (frame : StfuFrame) (packet : StfuPacket) : Prop where
  ts : frame.ts = packet.ts.toNat
  seq : frame.seq = packet.seq.toNat
  pt : frame.pt = packet.pt.toNat
  dlen : frame.dlen = min packet.data.length stfuDatalen
  data : frame.data.take frame.dlen = packet.data.take stfuDatalen

theorem fill_carries (frame : StfuFrame) (packet : StfuPacket) :
    (fill frame packet).Carries packet := by
  refine ⟨rfl, rfl, rfl, rfl, take_left' ?_⟩
  rw [length_take, Nat.min_comm]
  rfl

/-- An instance, the packets that it accepted, and the frames that it returned. -/
structure Player where
  stfu : Stfu
  accepted : List StfuPacket
  returned : List StfuFrame

namespace Player

def record (p : Player) (call : StfuCall) (stfu : Stfu) (reply : StfuReply) : Player where
  stfu := stfu
  accepted :=
    match call, reply with
    | .addData packet, .status .itWorked => p.accepted ++ [packet]
    | _, _ => p.accepted
  returned :=
    match reply with
    | .frame (some frame) => p.returned ++ [frame]
    | _ => p.returned

def next (state : Except Fault Player) (call : StfuCall) : Except Fault Player := do
  let p ← state
  let (stfu, reply) ← p.stfu.call call
  return p.record call stfu reply

/-- A packet is added or a frame read, without synchronisation, and the place in the stream does not
wrap. -/
def Steady (p : Player) : StfuCall → Prop
  | .addData _ => p.stfu.syncIn = 0 ∧ p.stfu.syncOut = 0
  | .readAFrame => p.stfu.syncIn = 0 ∧ p.stfu.syncOut = 0 ∧
    (p.stfu.ready = true → ¬ (p.stfu.curTs = 0 ∧ p.stfu.lastWrTs < 1000) →
      p.stfu.curTs + p.stfu.samplesPerPacket < 2 ^ 32)
  | _ => False

/-! ### Stored frames -/

def Stored (packets : List StfuPacket) (frame : StfuFrame) : Prop :=
  frame.plc = false ∧ (frame.ts = 0 ∨ ∃ packet ∈ packets, frame.Carries packet)

theorem stored_zero (packets : List StfuPacket) : Stored packets .zero := ⟨rfl, .inl rfl⟩

variable {packets : List StfuPacket} {p : Player} {frame : StfuFrame}

theorem Stored.marks (stored : Stored packets frame) :
    Stored packets { frame with wasRead := true } := by
  obtain ⟨plc, either⟩ := stored
  refine ⟨plc, either.imp_right ?_⟩
  rintro ⟨packet, member, ts, seq, pt, dlen, data⟩
  exact ⟨packet, member, ts, seq, pt, dlen, data⟩

theorem Stored.more (packet : StfuPacket) (stored : Stored packets frame) :
    Stored (packets ++ [packet]) frame := by
  obtain ⟨plc, either⟩ := stored
  refine ⟨plc, either.imp_right ?_⟩
  rintro ⟨other, member, carries⟩
  exact ⟨other, mem_append_left _ member, carries⟩

theorem Stored.fills (packet : StfuPacket) (stored : Stored packets frame) :
    Stored (packets ++ [packet]) (fill frame packet) :=
  ⟨stored.1, .inr ⟨packet, mem_append_right _ (mem_singleton_self packet),
    fill_carries frame packet⟩⟩

/-- The frames hold packets that were accepted. Whether calls return is left open. -/
def Holds (p : Player) : Prop := p.stfu.Sound True (Stored p.accepted)

theorem Holds.addData (holds : p.Holds) (packet : StfuPacket) :
    Ends True (p.stfu.addData packet) fun out =>
      (p.record (.addData packet) out.1 (.status out.2)).Holds ∧
        SameTimes p.stfu out.1 := by
  refine (addData_spec holds packet (fun _ => Stored.more packet) (fun _ => Stored.fills packet)
    (stored_zero _) (.inl trivial)).mono fun out added => ?_
  refine ⟨?_, added.times⟩
  obtain ⟨stfu, status⟩ := out
  cases status with
  | itWorked => exact added.stored rfl
  | _ => exact added.refused nofun

theorem Holds.readAFrame (holds : p.Holds) :
    Ends True p.stfu.readAFrame fun out =>
      (p.record .readAFrame out.1 (.frame out.2)).Holds ∧
        Played (Stored p.accepted) p.stfu out.1 out.2 :=
  readAFrame_spec holds fun _ => Stored.marks

theorem Holds.other (holds : p.Holds) {call : StfuCall} (other : ∀ packet, call ≠ .addData packet) :
    Ends True (p.stfu.call call) fun out => out.1.Sound True (Stored p.accepted) :=
  call_spec (stored_zero _) (fun _ => Stored.marks) holds (.inl trivial)
    fun packet same => absurd same (other packet)

theorem Holds.call (holds : p.Holds) (call : StfuCall) :
    Ends True (p.stfu.call call) fun out => (p.record call out.1 out.2).Holds := by
  cases call with
  | addData packet => exact (holds.addData packet).map fun _ => And.left
  | readAFrame => exact holds.readAFrame.map fun _ => And.left
  | _ => exact holds.other nofun

theorem run_holds {qlen maxQlen samplesPerPacket samplesPerSecond maxDriftMs : UInt32} {debug : Bool}
    {i : Stfu}
    (created : init qlen maxQlen samplesPerPacket samplesPerSecond maxDriftMs debug = .ok i)
    (calls : List StfuCall) : Ends True (Run.run next (.ok ⟨i, [], []⟩) calls) Holds := by
  have first : Holds ⟨i, [], []⟩ := init_sound (stored_zero _) (.inl trivial) created
  refine Run.run_keeps_all (P := fun state => Ends True state Holds) (s := .ok ⟨i, [], []⟩)
    (fun state call holds => ?_) first calls
  exact holds.bind fun p holds => (holds.call call).bind fun out still => still

/-! ### Steady runs -/

/-- In order so far. Unless the instance was reset, its place in the stream is that of the last
frame. -/
structure InOrder (p : Player) : Prop where
  holds : p.Holds
  increasing : p.returned.Pairwise fun frame later => frame.ts < later.ts
  stored : ∀ frame ∈ p.returned, frame.plc = false →
    ∃ packet ∈ p.accepted, frame.Carries packet
  place : p.stfu.syncIn ≠ 0 ∨ (p.returned ≠ [] →
    p.stfu.curTs = p.stfu.lastWrTs ∧ p.stfu.curTs ≠ 0 ∧
      ∀ frame ∈ p.returned, frame.ts ≤ p.stfu.lastWrTs)

theorem InOrder.addData (order : p.InOrder) (packet : StfuPacket) (idle : p.stfu.syncIn = 0) :
    Ends True (p.stfu.addData packet) fun out =>
      (p.record (.addData packet) out.1 (.status out.2)).InOrder := by
  refine (order.holds.addData packet).mono fun out after => ?_
  obtain ⟨holds, times⟩ := after
  refine ⟨holds, order.increasing, fun frame member real => ?_, .inr fun some_ => ?_⟩
  · obtain ⟨earlier, known, carries⟩ := order.stored frame member real
    refine ⟨earlier, ?_, carries⟩
    unfold record
    split
    · exact mem_append_left _ known
    · exact known
  · have place := order.place.resolve_left (fun asked => asked idle) some_
    change out.1.curTs = out.1.lastWrTs ∧ out.1.curTs ≠ 0 ∧
      ∀ frame ∈ p.returned, frame.ts ≤ out.1.lastWrTs
    rw [times.curTs, times.lastWrTs]
    exact place

theorem InOrder.readAFrame (order : p.InOrder) (steady : p.Steady .readAFrame) :
    Ends True p.stfu.readAFrame fun out =>
      (p.record .readAFrame out.1 (.frame out.2)).InOrder := by
  obtain ⟨idleIn, idleOut, wraps⟩ := steady
  refine order.holds.readAFrame.mono fun out after => ?_
  obtain ⟨stfu, frame⟩ := out
  obtain ⟨holds, place, stored, later⟩ := after
  have before := order.place.resolve_left fun asked => asked idleIn
  have onward : p.returned ≠ [] → (∀ new ∈ frame, p.stfu.lastWrTs < new.ts) ∧
      (frame = none → stfu = p.stfu ∨ stfu.syncIn ≠ 0) := by
    intro some_
    obtain ⟨same, positive, -⟩ := before some_
    exact later same positive idleOut fun ready => wraps ready fun start => positive start.1
  cases frame with
  | none =>
    refine ⟨holds, order.increasing, order.stored, ?_⟩
    by_cases some_ : p.returned = []
    · exact .inr fun other => absurd some_ other
    · rcases (onward some_).2 rfl with rfl | asked
      · exact .inr before
      · exact .inl asked
  | some frame =>
    obtain ⟨cur, last, positive⟩ := place frame rfl
    have earlier : ∀ old ∈ p.returned, old.ts < frame.ts := by
      intro old member
      have some_ := ne_nil_of_mem member
      exact ((before some_).2.2 old member).trans_lt ((onward some_).1 frame rfl)
    refine ⟨holds, ?_, fun new member real => ?_, .inr fun _ => ?_⟩
    · refine pairwise_append.mpr ⟨order.increasing, pairwise_singleton _ _, ?_⟩
      intro old member new only
      rw [mem_singleton.mp only]
      exact earlier old member
    · rcases mem_append.mp member with old | only
      · exact order.stored new old real
      · rw [mem_singleton.mp only] at real ⊢
        exact (stored frame rfl real).2.resolve_left positive
    · change stfu.curTs = stfu.lastWrTs ∧ stfu.curTs ≠ 0 ∧
        ∀ new ∈ p.returned ++ [frame], new.ts ≤ stfu.lastWrTs
      rw [cur, last]
      refine ⟨rfl, positive, fun new member => ?_⟩
      rcases mem_append.mp member with old | only
      · exact (earlier new old).le
      · rw [mem_singleton.mp only]

theorem InOrder.call (order : p.InOrder) {call : StfuCall} (steady : p.Steady call) :
    Ends True (p.stfu.call call) fun out => (p.record call out.1 out.2).InOrder := by
  cases call with
  | addData packet => exact (order.addData packet steady.1).map fun _ still => still
  | readAFrame => exact (order.readAFrame steady).map fun _ still => still
  | _ => exact steady.elim

end Player

/-- **The order of the frames.** An instance has come to a state by any calls. In a run of packets and
reads from there, without synchronisation and without a wrap, the timestamps of the frames that are
returned increase, a frame that is no concealment holds a packet that was accepted, and no packet is
held by two of the frames. -/
theorem playout_order {qlen maxQlen samplesPerPacket samplesPerSecond maxDriftMs : UInt32}
    {debug : Bool} {i : Stfu}
    (created :
      init qlen maxQlen samplesPerPacket samplesPerSecond maxDriftMs debug = .ok i)
    {history calls : List StfuCall} {start final : Player}
    (before : Run.run Player.next (.ok ⟨i, [], []⟩) history = .ok start)
    (steady : Run.Along Player.next (fun state call => ∀ p, state = .ok p → p.Steady call)
      (.ok { start with returned := [] }) calls)
    (after : Run.run Player.next (.ok { start with returned := [] }) calls = .ok final) :
    final.returned.Pairwise (fun frame later => frame.ts < later.ts) ∧
      (∀ frame ∈ final.returned, frame.plc = false →
        ∃ packet ∈ final.accepted, frame.Carries packet) ∧
      final.returned.Pairwise fun frame later =>
        ∀ packet, ¬ (frame.Carries packet ∧ later.Carries packet) := by
  have holds : start.Holds := (Player.run_holds created history).of_returns before
  have first : Player.InOrder { start with returned := [] } :=
    ⟨holds, .nil, nofun, .inr fun some_ => absurd rfl some_⟩
  have order : Ends True (Run.run Player.next (.ok { start with returned := [] }) calls)
      Player.InOrder := by
    refine Run.run_keeps (P := fun state => Ends True state Player.InOrder)
      (fun state call order steady => ?_) first steady
    cases state with
    | error fault => trivial
    | ok p => exact (order.call (steady p rfl)).bind fun _ still => still
  have final_ := order.of_returns after
  refine ⟨final_.increasing, final_.stored, final_.increasing.imp ?_⟩
  rintro frame later order packet ⟨first, second⟩
  rw [first.ts, second.ts] at order
  exact lt_irrefl _ order

def twoPackets : List StfuCall :=
  [.addData ⟨160, 1, 0, [1], 0, false⟩, .addData ⟨320, 2, 0, [2], 0, false⟩, .readAFrame, .readAFrame]

theorem playout_order_two : ∃ i final, init 2 0 160 8000 0 false = .ok i ∧
    Run.run Player.next (.ok ⟨i, [], []⟩) twoPackets = .ok final ∧
    final.returned.map (fun frame => frame.ts) = [160, 320] ∧
    final.returned.Pairwise (fun frame later => frame.ts < later.ts) := by
  refine ⟨_, _, rfl, rfl, rfl, (@playout_order 2 0 160 8000 0 false _ rfl [] twoPackets _ _ rfl
    ⟨?_, ?_, ?_, ?_, trivial⟩ rfl).1⟩ <;> rintro p ⟨⟩
  · exact ⟨rfl, rfl⟩
  · exact ⟨rfl, rfl⟩
  · exact ⟨rfl, rfl, fun _ _ => by decide⟩
  · exact ⟨rfl, rfl, fun _ _ => by decide⟩

end FreeSwitch
