/-
**Digits are received exactly once.**

Telephone events, each with a timestamp of its own, are sent as update packets and then end packets
(`ToneEvent.packets`) over a channel that loses and repeats packets. For every event of which an end
packet arrives one digit is to be queued, in order (`heardDigits`).

* `digits_exactly_once`: so it is in a run whose packets are `Orderly`: a packet that is not a
  repetition passes the filter of sequence numbers, an end packet does not meet a digit of another
  event, and the repetition of a blank packet meets no digit;
* `lost_end_repeats_digit`: where an end packet does meet the digit of an event whose end was lost,
  its own digit is queued twice; a packet with number 0 is always dropped.
-/

import FreeSwitch.Lib.Delivery
import FreeSwitch.Rtp.Hearing

open Delivery

namespace FreeSwitch

open Hearing List ToneInput

open Run

/-! ### Events and what is heard of them -/

structure ToneEvent where
  code : UInt8
  ts : UInt32
  updates : List ToneStamp
  ends : List ToneStamp

namespace ToneEvent

def packet (e : ToneEvent) (ended : Bool) (stamp : ToneStamp) : TonePacket :=
  { stamp with code := e.code, ended := ended, ts := e.ts }

def updatePackets (e : ToneEvent) : List TonePacket := e.updates.map (e.packet false)

def endPackets (e : ToneEvent) : List TonePacket := e.ends.map (e.packet true)

def packets (e : ToneEvent) : List TonePacket := e.updatePackets ++ e.endPackets

def key (e : ToneEvent) : Char := rfc2833ToChar e.code.toNat

def endsIn (e : ToneEvent) (got : List TonePacket) : Bool := e.endPackets.any (· ∈ got)

end ToneEvent

/-- **What is to be queued**: the digits of which an end packet was delivered. -/
def heardDigits (events : List ToneEvent) (got : List TonePacket) : List Char :=
  (events.filter (·.endsIn got)).map ToneEvent.key

def Advances (p q : TonePacket) : Prop :=
  1 ≤ (q.seq - p.seq).toNat ∧ (q.seq - p.seq).toNat ≤ 2 ^ 15

instance (p q : TonePacket) : Decidable (Advances p q) := inferInstanceAs (Decidable (_ ∧ _))

/-- What keeps reception exact, of a packet, what was heard and the last packet. -/
structure Orderly (h : Hearing × Option TonePacket) (p : TonePacket) : Prop where
  numbered : h.2 = some p ∨ filter h.1.seq p.seq.toNat < p.seq.toNat
  alone : p.ended = true → h.1.openTs = 0 ∨ h.1.openTs = p.ts.toNat
  whole : h.2 = some p → p.blank = true → h.1.openTs = 0

instance (h : Hearing × Option TonePacket) (p : TonePacket) : Decidable (Orderly h p) :=
  decidable_of_iff ((h.2 = some p ∨ filter h.1.seq p.seq.toNat < p.seq.toNat) ∧
    (p.ended = true → h.1.openTs = 0 ∨ h.1.openTs = p.ts.toNat) ∧
    (h.2 = some p → p.blank = true → h.1.openTs = 0))
    ⟨fun ⟨numbered, alone, whole⟩ => ⟨numbered, alone, whole⟩,
      fun ⟨numbered, alone, whole⟩ => ⟨numbered, alone, whole⟩⟩

/-! ### One packet -/

/-- The number heard is the last packet's, and an open digit is the last that started. -/
structure Attuned (h : Hearing × Option TonePacket) : Prop where
  seq : ∀ q, h.2 = some q → h.1.seq = q.seq.toNat
  lastTs : h.1.openTs ≠ 0 → h.1.lastTs = h.1.openTs

def Hearing.keys (h : Hearing) : List Char := h.digits.map Dtmf.digit

section Packet

variable (least : Nat) {h : Hearing × Option TonePacket} {p : TonePacket}

theorem next_repeated (attuned : Attuned h) (orderly : Orderly h p) (same : h.2 = some p) :
    Hearing.next least h p = h := by
  have seq : Hearing.filter h.1.seq p.seq.toNat = p.seq.toNat := by
    rw [attuned.seq p same, Hearing.filter, if_neg (by omega)]
  have closed : (if p.blank then 0 else h.1.openTs) = h.1.openTs := by
    split
    · next blank => exact (orderly.whole same blank).symm
    · rfl
  unfold Hearing.next Hearing.hear Hearing.sift
  simp only [closed, seq, lt_irrefl, if_false]
  refine Prod.ext ?_ same.symm
  simp [← attuned.seq p same]

theorem next_update (orderly : Orderly h p) (new : h.2 ≠ some p) (update : p.ended = false) :
    (Hearing.next least h p).1.keys = h.1.keys ∧
      (Hearing.next least h p).1.seq = p.seq.toNat ∧
      ((Hearing.next least h p).1.openTs = p.ts.toNat ∧
          (Hearing.next least h p).1.lastTs = p.ts.toNat ∨
        h.1.openTs ≠ 0 ∧ (Hearing.next least h p).1.openTs = h.1.openTs ∧
          (Hearing.next least h p).1.lastTs = h.1.lastTs) := by
  have passes := orderly.numbered.resolve_left new
  unfold Hearing.next Hearing.hear Hearing.sift Hearing.accept Hearing.advance Hearing.keys
  simp only [passes, if_true, update, Bool.false_eq_true, if_false]
  split_ifs with blank closed closed
  · exact ⟨rfl, rfl, .inl ⟨rfl, rfl⟩⟩
  · exact absurd rfl closed
  · exact ⟨rfl, rfl, .inl ⟨rfl, rfl⟩⟩
  · exact ⟨rfl, rfl, .inr ⟨closed, rfl, rfl⟩⟩

theorem next_end (attuned : Attuned h) (orderly : Orderly h p) (new : h.2 ≠ some p)
    (ended : p.ended = true) (nonzero : p.ts.toNat ≠ 0) :
    (Hearing.next least h p).1.seq = p.seq.toNat ∧ (Hearing.next least h p).1.openTs = 0 ∧
      (Hearing.next least h p).1.lastTs = p.ts.toNat ∧
      (Hearing.next least h p).1.keys = if h.1.openTs = 0 ∧ h.1.lastTs = p.ts.toNat then h.1.keys
        else h.1.keys ++ [p.key] := by
  have passes := orderly.numbered.resolve_left new
  have full : p.blank = false := by simp [TonePacket.blank, ended]
  unfold Hearing.next Hearing.hear Hearing.sift Hearing.accept Hearing.advance Hearing.keys
  simp only [passes, if_true, ended, full, Bool.false_eq_true, if_false]
  by_cases closed : h.1.openTs = 0
  · by_cases started : h.1.lastTs = p.ts.toNat
    · simp [closed, started]
    · simp [closed, started, Hearing.start, Hearing.finish, nonzero]
  · have own : h.1.openTs = p.ts.toNat := (orderly.alone ended).resolve_left closed
    have last : h.1.lastTs = p.ts.toNat := (attuned.lastTs closed).trans own
    simp [closed, last, Hearing.finish]

theorem next_lastTs (h : Hearing × Option TonePacket) (p : TonePacket) :
    (Hearing.next least h p).1.lastTs = h.1.lastTs ∨
      (Hearing.next least h p).1.lastTs = p.ts.toNat := by
  unfold Hearing.next Hearing.hear Hearing.sift Hearing.accept Hearing.advance
  simp only [apply_ite Hearing.lastTs, Hearing.finish, Hearing.start, ite_self]
  split_ifs <;> first | exact .inl rfl | exact .inr rfl

end Packet

/-! ### The packets of one event -/

/-- No digit of this event has ended yet: none has started, or one is open. -/
structure Before (e : ToneEvent) (keys : List Char) (h : Hearing × Option TonePacket) : Prop where
  attuned : Attuned h
  keys : h.1.keys = keys
  phase : h.1.lastTs ≠ e.ts.toNat ∨ h.1.openTs = e.ts.toNat
  last : ∀ q, h.2 = some q → q.ended = true → q.ts ≠ e.ts

structure Done (e : ToneEvent) (keys : List Char) (h : Hearing × Option TonePacket) : Prop where
  attuned : Attuned h
  keys : h.1.keys = keys ++ [e.key]
  closed : h.1.openTs = 0
  lastTs : h.1.lastTs = e.ts.toNat

section Event

variable {least : Nat} {e : ToneEvent} {keys : List Char} {h : Hearing × Option TonePacket}
  {p : TonePacket} {got : List TonePacket}

theorem ToneEvent.mem_updatePackets (member : p ∈ e.updatePackets) :
    p.ended = false ∧ p.ts = e.ts := by
  obtain ⟨stamp, -, rfl⟩ := mem_map.mp member
  exact ⟨rfl, rfl⟩

theorem ToneEvent.mem_endPackets (member : p ∈ e.endPackets) :
    p.ended = true ∧ p.ts = e.ts ∧ p.key = e.key := by
  obtain ⟨stamp, -, rfl⟩ := mem_map.mp member
  exact ⟨rfl, rfl, rfl⟩

theorem ToneEvent.mem_packets (member : p ∈ e.packets) : p.ts = e.ts := by
  rcases mem_append.mp member with update | ending
  · exact (mem_updatePackets update).2
  · exact (mem_endPackets ending).2.1

theorem before_update (before : Before e keys h) (orderly : Orderly h p)
    (update : p ∈ e.updatePackets) : Before e keys (next least h p) := by
  obtain ⟨ended, ts⟩ := ToneEvent.mem_updatePackets update
  by_cases same : h.2 = some p
  · rw [next_repeated least before.attuned orderly same]
    exact before
  · have last : ∀ q, (next least h p).2 = some q → q.ended = true → q.ts ≠ e.ts := by
      rintro q ⟨⟩ isEnd
      exact absurd isEnd (ended ▸ Bool.false_ne_true)
    obtain ⟨kept, seq, ⟨opened, started⟩ | ⟨openBefore, opened, started⟩⟩ :=
      next_update least orderly same ended
    · refine ⟨⟨fun q own => ?_, fun _ => started.trans opened.symm⟩, kept.trans before.keys,
        .inr (ts ▸ opened), last⟩
      obtain rfl := Option.some.inj own
      exact seq
    · refine ⟨⟨fun q own => ?_, fun _ => ?_⟩, kept.trans before.keys, ?_, last⟩
      · obtain rfl := Option.some.inj own
        exact seq
      · rw [opened, started]
        exact before.attuned.lastTs openBefore
      · rw [opened, started]
        exact before.phase

theorem before_updates (before : Before e keys h) (updates : ∀ p ∈ got, p ∈ e.updatePackets)
    (orderly : Along (next least) Orderly h got) :
    Before e keys (run (next least) h got) := by
  induction got generalizing h with
  | nil => exact before
  | cons p got ih =>
    obtain ⟨first, later⟩ := forall_mem_cons.mp updates
    exact ih (before_update before orderly.1 first) later orderly.2

theorem done_next (attuned : Attuned h) (orderly : Orderly h p) (new : h.2 ≠ some p)
    (ending : p ∈ e.endPackets) (nonzero : e.ts.toNat ≠ 0)
    (queued : (if h.1.openTs = 0 ∧ h.1.lastTs = e.ts.toNat then h.1.keys
      else h.1.keys ++ [e.key]) = keys ++ [e.key]) : Done e keys (next least h p) := by
  obtain ⟨ended, ts, key⟩ := ToneEvent.mem_endPackets ending
  obtain ⟨seq, closed, last, adds⟩ := next_end least attuned orderly new ended (ts ▸ nonzero)
  rw [key, ts] at adds
  refine ⟨⟨fun q own => ?_, fun opened => absurd closed opened⟩, adds.trans queued, closed,
    ts ▸ last⟩
  obtain rfl := Option.some.inj own
  exact seq

theorem done_of_before (before : Before e keys h) (orderly : Orderly h p)
    (ending : p ∈ e.endPackets) (nonzero : e.ts.toNat ≠ 0) :
    Done e keys (next least h p) := by
  obtain ⟨ended, ts, -⟩ := ToneEvent.mem_endPackets ending
  have new : h.2 ≠ some p := fun same => before.last p same ended ts
  refine done_next before.attuned orderly new ending nonzero ?_
  rw [before.keys, if_neg]
  rintro ⟨closed, started⟩
  rcases before.phase with other | opened
  · exact other started
  · exact nonzero (opened.symm.trans closed)

theorem done_end (done : Done e keys h) (orderly : Orderly h p) (ending : p ∈ e.endPackets)
    (nonzero : e.ts.toNat ≠ 0) : Done e keys (next least h p) := by
  by_cases same : h.2 = some p
  · rw [next_repeated least done.attuned orderly same]
    exact done
  · refine done_next done.attuned orderly same ending nonzero ?_
    rw [if_pos ⟨done.closed, done.lastTs⟩]
    exact done.keys

theorem done_ends (done : Done e keys h) (ends : ∀ p ∈ got, p ∈ e.endPackets)
    (nonzero : e.ts.toNat ≠ 0) (orderly : Along (next least) Orderly h got) :
    Done e keys (run (next least) h got) := by
  induction got generalizing h with
  | nil => exact done
  | cons p got ih =>
    obtain ⟨first, later⟩ := forall_mem_cons.mp ends
    exact ih (done_end done orderly.1 first nonzero) later orderly.2

/-- **The packets of one event** queue its digit exactly if an end packet is among them. -/
theorem event_run (before : Before e keys h) (nonzero : e.ts.toNat ≠ 0)
    (delivered : Delivers e.packets got) (orderly : Along (next least) Orderly h got) :
    Attuned (run (next least) h got) ∧
      (run (next least) h got).1.keys = keys ++ if e.endsIn got then [e.key] else [] := by
  obtain ⟨updates, ends, rfl, sentUpdates, sentEnds⟩ := delivered.append
  have started := before_updates before (fun p => sentUpdates.mem)
    (orderly.beginning (prefix_append updates ends))
  have rest := orderly.ending
  rw [run_append]
  cases ends with
  | nil =>
    refine ⟨started.attuned, ?_⟩
    rw [if_neg, append_nil]
    · exact started.keys
    · intro some
      obtain ⟨p, isEnd, arrived⟩ := any_eq_true.mp some
      rw [append_nil, decide_eq_true_eq] at arrived
      have update := ToneEvent.mem_updatePackets (sentUpdates.mem arrived)
      exact absurd (ToneEvent.mem_endPackets isEnd).1 (update.1 ▸ Bool.false_ne_true)
  | cons p ends =>
    have isEnd : p ∈ e.endPackets := sentEnds.mem mem_cons_self
    have first : Done e keys (next least (run (next least) h updates) p) :=
      done_of_before started rest.1 isEnd nonzero
    have done := done_ends first (fun q later => sentEnds.mem (mem_cons_of_mem _ later)) nonzero
      rest.2
    refine ⟨done.attuned, ?_⟩
    rw [if_pos]
    · exact done.keys
    · refine any_eq_true.mpr ⟨p, isEnd, decide_eq_true ?_⟩
      exact mem_append_right _ mem_cons_self

end Event

/-! ### Streams of events -/

structure Clear (ts : UInt32) (h : Hearing × Option TonePacket) : Prop where
  lastTs : h.1.lastTs ≠ ts.toNat
  last : ∀ q, h.2 = some q → q.ts ≠ ts

section Events

variable {least : Nat} {e : ToneEvent} {events : List ToneEvent} {h : Hearing × Option TonePacket}
  {got first later : List TonePacket}

theorem Clear.before (clear : Clear e.ts h) (attuned : Attuned h) : Before e h.1.keys h :=
  ⟨attuned, rfl, .inl clear.lastTs, fun q last _ => clear.last q last⟩

theorem Clear.run {ts : UInt32} (clear : Clear ts h) (others : ∀ p ∈ got, p.ts ≠ ts) :
    Clear ts (run (next least) h got) := by
  induction got generalizing h with
  | nil => exact clear
  | cons p got ih =>
    obtain ⟨other, rest⟩ := forall_mem_cons.mp others
    refine ih ⟨?_, fun q last => ?_⟩ rest
    · rcases next_lastTs least h p with same | own
      · exact same ▸ clear.lastTs
      · exact own ▸ fun same => other (UInt32.toNat_inj.mp same)
    · obtain rfl := Option.some.inj last
      exact other

theorem endsIn_append (others : ∀ p ∈ later, p.ts ≠ e.ts) :
    e.endsIn (first ++ later) = e.endsIn first := by
  refine Bool.eq_iff_iff.mpr ?_
  unfold ToneEvent.endsIn
  simp only [any_eq_true, decide_eq_true_eq, mem_append]
  refine exists_congr fun p => and_congr_right fun isEnd => or_iff_left fun arrived => ?_
  exact others p arrived (ToneEvent.mem_endPackets isEnd).2.1

theorem endsIn_append_left (others : ∀ p ∈ first, p.ts ≠ e.ts) :
    e.endsIn (first ++ later) = e.endsIn later := by
  refine Bool.eq_iff_iff.mpr ?_
  unfold ToneEvent.endsIn
  simp only [any_eq_true, decide_eq_true_eq, mem_append]
  refine exists_congr fun p => and_congr_right fun isEnd => or_iff_right fun arrived => ?_
  exact others p arrived (ToneEvent.mem_endPackets isEnd).2.1

theorem heardDigits_cons (here : ∀ p ∈ first, p.ts = e.ts) (behind : ∀ p ∈ later, p.ts ≠ e.ts)
    (distinct : ∀ e' ∈ events, e'.ts ≠ e.ts) :
    heardDigits (e :: events) (first ++ later) =
      (if e.endsIn first then [e.key] else []) ++ heardDigits events later := by
  have rest : events.filter (·.endsIn (first ++ later)) = events.filter (·.endsIn later) := by
    refine filter_congr fun e' member => endsIn_append_left fun p arrived => ?_
    exact here p arrived ▸ (distinct e' member).symm
  unfold heardDigits
  rw [filter_cons, endsIn_append behind, rest]
  split <;> rfl

theorem delivered_cons (distinct : ((e :: events).map ToneEvent.ts).Nodup)
    (delivered : Delivers ((e :: events).flatMap ToneEvent.packets) got) :
    ∃ first later, got = first ++ later ∧ Delivers e.packets first ∧
      Delivers (events.flatMap ToneEvent.packets) later ∧ (∀ p ∈ first, p.ts = e.ts) ∧
      (∀ p ∈ later, p.ts ≠ e.ts) ∧ ∀ e' ∈ events, e'.ts ≠ e.ts := by
  obtain ⟨first, later, rfl, here, behind⟩ := Delivers.append delivered
  have other : ∀ e' ∈ events, e'.ts ≠ e.ts := fun e' member same =>
    (nodup_cons.mp distinct).1 (same ▸ mem_map_of_mem member)
  refine ⟨first, later, rfl, here, behind, fun p arrived => ToneEvent.mem_packets (here.mem arrived),
    fun p arrived => ?_, other⟩
  obtain ⟨e', member, sent⟩ := mem_flatMap.mp (behind.mem arrived)
  exact ToneEvent.mem_packets sent ▸ other e' member

/-- **A stream of events** is heard exactly once. -/
theorem events_run (distinct : (events.map ToneEvent.ts).Nodup)
    (nonzero : ∀ e ∈ events, e.ts ≠ 0) (delivered : Delivers (events.flatMap ToneEvent.packets) got)
    (attuned : Attuned h) (clear : ∀ e ∈ events, Clear e.ts h)
    (orderly : Along (next least) Orderly h got) :
    (run (next least) h got).1.keys = h.1.keys ++ heardDigits events got := by
  induction events generalizing h got with
  | nil =>
    cases delivered
    exact (append_nil _).symm
  | cons e events ih =>
    obtain ⟨first, later, rfl, here, behind, hereTs, behindTs, other⟩ := delivered_cons distinct delivered
    obtain ⟨clearHere, clear⟩ := forall_mem_cons.mp clear
    obtain ⟨nonzeroHere, nonzero⟩ := forall_mem_cons.mp nonzero
    have zero : e.ts.toNat ≠ 0 := fun zero => nonzeroHere (UInt32.toNat_inj.mp zero)
    obtain ⟨attuned', heard⟩ := event_run (clearHere.before attuned) zero here
      (orderly.beginning (prefix_append first later))
    have clear' : ∀ e' ∈ events, Clear e'.ts (run (next least) h first) :=
      fun e' member => (clear e' member).run fun p arrived =>
        hereTs p arrived ▸ (other e' member).symm
    rw [run_append, ih distinct.of_cons nonzero behind attuned' clear' orderly.ending, heard,
      heardDigits_cons hereTs behindTs other, append_assoc]

end Events

/-! ### The session -/

/-- **Digits are received exactly once** by a new session: whatever packets of a stream of events
are lost or repeated, and whenever the application takes digits off the queue. No packet meets the
timeout for sanity or a full queue, and each is orderly. -/
theorem digits_exactly_once {cfg : RtpConfig} (hears : Hears cfg) (recv : RtpRecv)
    {events : List ToneEvent} (distinct : (events.map ToneEvent.ts).Nodup)
    (nonzero : ∀ e ∈ events, e.ts ≠ 0) {inputs : List ToneInput}
    (delivered : Delivers (events.flatMap ToneEvent.packets) (inputs.filterMap packet?))
    (orderly : Along (Hearer.step cfg)
      (fun l input => l.Calm input ∧ ∀ p ∈ input.packet?, Orderly l.view p) (newHearer recv)
      inputs) :
    (run (Hearer.step cfg) (newHearer recv) inputs).hearing.keys =
      heardDigits events (inputs.filterMap packet?) := by
  obtain ⟨heard, along⟩ := hearing_run hears (l := newHearer recv) rfl orderly
  have attuned : Attuned (newHearer recv).view :=
    ⟨fun q none => absurd none.symm (Option.some_ne_none q), fun opened => absurd rfl opened⟩
  have clear : ∀ e ∈ events, Clear e.ts (newHearer recv).view := fun e member =>
    ⟨fun zero => nonzero e member (UInt32.toNat_inj.mp zero.symm),
      fun q none => absurd none.symm (Option.some_ne_none q)⟩
  have keys := events_run distinct nonzero delivered attuned clear along
  rw [← heard] at keys
  exact keys

def toneConfig : RtpConfig := { (default : RtpConfig) with recvTe := 101 }

def toneStamp (seq duration : UInt16) : ToneStamp := ⟨10, duration, false, seq, 7⟩

def turningEvents : List ToneEvent :=
  [⟨1, 1000, [toneStamp 65534 160], [toneStamp 65535 320, toneStamp 1 320]⟩,
    ⟨2, 2000, [toneStamp 2 160], [toneStamp 3 320, toneStamp 4 320]⟩]

/-- The first update and an end packet are lost, an end packet arrives twice, and the first digit is
taken off before the second is sent. -/
def turningInputs : List ToneInput :=
  let first : ToneEvent := ⟨1, 1000, [], []⟩
  let second : ToneEvent := ⟨2, 2000, [], []⟩
  [.packet (first.packet true (toneStamp 65535 320)),
    .packet (first.packet true (toneStamp 65535 320)),
    .packet (first.packet true (toneStamp 1 320)), .dequeue,
    .packet (second.packet false (toneStamp 2 160)),
    .packet (second.packet true (toneStamp 4 320))]

theorem turningInputs_delivered :
    Delivers (turningEvents.flatMap ToneEvent.packets)
      (turningInputs.filterMap packet?) :=
  .next (.arrives (.arrives (.next (.arrives (.next (.arrives (.next (.next (.arrives (.next
    .nil))))))))))

theorem digits_exactly_once_turning :
    Hears toneConfig ∧ (turningEvents.map ToneEvent.ts).Nodup ∧
      Delivers (turningEvents.flatMap ToneEvent.packets)
        (turningInputs.filterMap packet?) ∧
      (run (Hearer.step toneConfig) (newHearer default) turningInputs).hearing.keys = ['1', '2'] :=
  have hears : Hears toneConfig := ⟨by decide, by decide, rfl, rfl, rfl⟩
  ⟨hears, by decide, turningInputs_delivered,
    (digits_exactly_once hears default (by decide) (by decide) turningInputs_delivered
      (by decide +kernel)).trans (by decide +kernel)⟩

def lostEnd : List ToneEvent :=
  [⟨1, 1000, [toneStamp 10 160], [toneStamp 11 320]⟩,
    ⟨2, 2000, [], [toneStamp 12 320, toneStamp 13 320]⟩]

def endAtZero : List ToneEvent := [⟨1, 1000, [toneStamp 65535 160], [toneStamp 0 320]⟩]

/-- **Reception is not exact.** The second digit is queued twice when the end of the first one was
lost, and a digit is not queued at all when its end packet has the number 0. -/
theorem lost_end_repeats_digit :
    (let sent := lostEnd.flatMap ToneEvent.packets
      let inputs := (sent.eraseIdx 1).map packet
      sent.IsChain Advances ∧ Delivers sent (inputs.filterMap packet?) ∧
        Along (Hearer.step toneConfig) Hearer.Calm (newHearer default) inputs ∧
        (run (Hearer.step toneConfig) (newHearer default) inputs).hearing.keys = ['2', '2'] ∧
        heardDigits lostEnd (inputs.filterMap packet?) = ['2']) ∧
      (let sent := endAtZero.flatMap ToneEvent.packets
      let inputs := sent.map packet
      sent.IsChain Advances ∧ Delivers sent (inputs.filterMap packet?) ∧
        Along (Hearer.step toneConfig) Hearer.Calm (newHearer default) inputs ∧
        (run (Hearer.step toneConfig) (newHearer default) inputs).hearing.keys = [] ∧
        heardDigits endAtZero (inputs.filterMap packet?) = ['1']) := by
  refine ⟨⟨by decide, ?_, by decide +kernel, by decide +kernel, by decide +kernel⟩,
    ⟨by decide, ?_, by decide +kernel, by decide +kernel, by decide +kernel⟩⟩
  · exact .arrives (.next (.next (.arrives (.next (.arrives (.next .nil))))))
  · exact .arrives (.next (.arrives (.next .nil)))

end FreeSwitch
