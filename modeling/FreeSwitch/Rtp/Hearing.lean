/-
**What a session hears of telephone events.**

The packets of telephone events as datagrams, and what `handle_rfc2833` makes of them in a session
with default flags. Of its state only the numbers and times of the last packets and the digits
matter (`Hearing`): the counters for sanity and interleaved audio, the queue and the application
that empties it are left out.

* `hearing_run`: what a run of packets does, in which digits are taken off the queue at any time.
-/

import FreeSwitch.Rtp.Read

namespace FreeSwitch

open DtmfIn Run

/-! ### Packets of events -/

structure ToneStamp where
  volume : Fin 128
  duration : UInt16
  m : Bool
  seq : UInt16
  ssrc : UInt32
  deriving DecidableEq

instance volume_neZero : NeZero 128 := ⟨by decide⟩

structure TonePacket extends ToneStamp where
  code : UInt8
  ended : Bool
  ts : UInt32
  deriving DecidableEq

def bitAbove (bit : Bool) (low : Nat) : UInt8 := UInt8.ofNat ((if bit then 128 else 0) + low)

theorem bitAbove_toNat {low : Nat} (small : low < 128) (bit : Bool) :
    (bitAbove bit low).toNat = (if bit then 128 else 0) + low := by
  rw [bitAbove, UInt8.toNat_ofNat']
  split <;> omega

variable (least : Nat) (h : Hearing) (p : TonePacket)

namespace TonePacket

/-- The datagram: a header without extension, of payload type `te`, and the event. -/
def bytes (te : Nat) : List UInt8 :=
  [0x80, bitAbove p.m te] ++ be16Bytes p.seq.toNat ++ be32Bytes p.ts.toNat ++
    be32Bytes p.ssrc.toNat ++ [p.code, bitAbove p.ended p.volume] ++ be16Bytes p.duration.toNat

theorem bytes_length (te : Nat) : (p.bytes te).length = 16 := rfl

def key (p : TonePacket) : Char := rfc2833ToChar p.code.toNat

def event (p : TonePacket) : TelephoneEvent :=
  ⟨p.key, p.ended, p.duration.toNat, p.seq.toNat, p.ts.toNat⟩

@[simp] theorem event_key : p.event.key = p.key := rfl

@[simp] theorem event_ended : p.event.ended = p.ended := rfl

@[simp] theorem event_duration : p.event.duration = p.duration.toNat := rfl

@[simp] theorem event_seq : p.event.seq = p.seq.toNat := rfl

@[simp] theorem event_ts : p.event.ts = p.ts.toNat := rfl

def blank (p : TonePacket) : Bool := p.code = 0 && !p.ended && p.volume = 0 && p.duration = 0

end TonePacket

section Reading

variable {cfg : RtpConfig} {old : RtpMsg} {p : TonePacket} {te : Nat}

theorem receiveMsg_packet :
    receiveMsg cfg old (p.bytes te) = ⟨old.mem.write 0 (p.bytes te), none⟩ := by
  have first : old.mem.write 0 (p.bytes te) 0 = 0x80 := rfl
  unfold receiveMsg
  refine if_neg fun extended => ?_
  have extension : ((old.mem.write 0 (p.bytes te) 0).toNat / 16 % 2 == 1) = true :=
    extended.2.2.2.2
  rw [first] at extension
  exact absurd extension (by decide)

theorem seq_packet : (receiveMsg cfg old (p.bytes te)).seq = p.seq.toNat := by
  rw [receiveMsg_packet]
  exact be16Bytes_toNat p.seq.toNat_lt

theorem ts_packet : (receiveMsg cfg old (p.bytes te)).ts = p.ts.toNat := by
  rw [receiveMsg_packet]
  exact be32Bytes_toNat p.ts.toNat_lt

theorem pt_packet (small : te < 128) : (receiveMsg cfg old (p.bytes te)).pt = te := by
  rw [receiveMsg_packet]
  change (bitAbove p.m te).toNat % 128 = te
  rw [bitAbove_toNat small]
  split <;> omega

theorem eventOffset_packet : eventOffset (receiveMsg cfg old (p.bytes te)) 16 = 12 := by
  rw [receiveMsg_packet]
  refine if_neg fun offset => ?_
  exact absurd (of_decide_eq_true (Bool.and_eq_true_iff.mp offset).2) (by decide)

theorem readEvent_packet : readEvent (receiveMsg cfg old (p.bytes te)) 16 = p.event := by
  unfold readEvent
  simp only [eventOffset_packet, seq_packet, ts_packet]
  rw [receiveMsg_packet]
  have ended : decide (128 ≤ (bitAbove p.ended p.volume).toNat) = p.ended := by
    rw [bitAbove_toNat p.volume.isLt]
    cases p.ended <;> simp
  have duration := be16Bytes_toNat p.duration.toNat_lt
  exact congrArg₂ (fun ended duration => TelephoneEvent.mk p.key ended duration p.seq.toNat
    p.ts.toNat) ended duration

theorem blank_packet :
    blank (receiveMsg cfg old (p.bytes te)).mem (eventOffset (receiveMsg cfg old (p.bytes te)) 16) =
      p.blank := by
  rw [eventOffset_packet, receiveMsg_packet]
  change (decide (p.code = 0) && decide (bitAbove p.ended p.volume = 0) &&
    decide (UInt8.ofNat (p.duration.toNat / 256) = 0) &&
    decide (UInt8.ofNat p.duration.toNat = 0)) = p.blank
  have volume : bitAbove p.ended p.volume = 0 ↔ p.ended = false ∧ p.volume = 0 := by
    have zero : p.volume = 0 ↔ (p.volume : Nat) = 0 := Fin.ext_iff
    rw [← UInt8.toNat_inj, bitAbove_toNat p.volume.isLt, UInt8.toNat_zero, zero]
    cases p.ended with
    | true => exact ⟨fun none => absurd none (by simp), fun none => absurd none.1 (by simp)⟩
    | false => simp only [Bool.false_eq_true, if_false, Nat.zero_add, true_and]
  have duration : UInt8.ofNat (p.duration.toNat / 256) = 0 ∧ UInt8.ofNat p.duration.toNat = 0 ↔
      p.duration = 0 := by
    rw [← UInt8.toNat_inj, ← UInt8.toNat_inj, ← UInt16.toNat_inj, UInt8.toNat_ofNat',
      UInt8.toNat_ofNat']
    have small := p.duration.toNat_lt
    simp only [UInt8.toNat_zero, UInt16.toNat_zero]
    omega
  rw [Bool.eq_iff_iff, TonePacket.blank]
  simp only [Bool.and_eq_true, decide_eq_true_eq, volume, and_assoc, Bool.not_eq_true', duration]

end Reading

/-! ### The effect of a packet -/

structure Hears (cfg : RtpConfig) : Prop where
  te_ne : cfg.recvTe ≠ 0
  te_lt : cfg.recvTe < 128
  noProxy : cfg.proxyMedia = false
  noPass : cfg.passRfc2833 = false
  durations : cfg.ignoreDtmfDuration = false

/-- What of the state of `handle_rfc2833` the digits depend on. -/
structure Hearing where
  seq : Nat
  openTs : Nat
  lastTs : Nat
  lastDuration : Nat
  flip : Nat
  digits : List Dtmf
  deriving DecidableEq

namespace Hearing

def start (p : TonePacket) : Hearing :=
  { h with openTs := p.ts.toNat, lastTs := p.ts.toNat }

def duration (h : Hearing) (p : TonePacket) : Nat :=
  ((if p.ts.toNat > h.openTs then p.duration.toNat + (p.ts.toNat - h.openTs)
    else p.duration.toNat) + h.flip * 65535) % 2 ^ 32

def finish (p : TonePacket) : Hearing :=
  { h with
    openTs := 0
    flip := 0
    lastDuration := p.duration.toNat
    digits := h.digits ++ [⟨p.key, max (h.duration p) least⟩] }

def advance (p : TonePacket) : Hearing :=
  { h with
    seq := p.seq.toNat
    flip := if h.lastDuration > p.duration.toNat && h.lastDuration > 0xFC17 &&
      p.ts.toNat == h.openTs then h.flip + 1 else h.flip }

def accept (p : TonePacket) : Hearing :=
  let h := h.advance p
  if p.ended then
    let h := if h.openTs = 0 ∧ h.lastTs ≠ p.ts.toNat then h.start p else h
    if h.openTs ≠ 0 then h.finish least p else h
  else
    let h := if h.openTs = 0 then h.start p else h
    { h with lastDuration := p.duration.toNat }

/-- The number to compare with: one far above `seq` counts as none. -/
def filter (last seq : Nat) : Nat := if seq < last ∧ last - seq > 100 then 0 else last

def sift (p : TonePacket) : Hearing :=
  let h := { h with seq := filter h.seq p.seq.toNat }
  if h.seq < p.seq.toNat then h.accept least p else h

/-- **The effect of a packet.** -/
def hear (p : TonePacket) : Hearing :=
  { h with openTs := if p.blank then 0 else h.openTs }.sift least p

def next (h : Hearing × Option TonePacket) (p : TonePacket) :
    Hearing × Option TonePacket := (h.1.hear least p, some p)

end Hearing

def DtmfIn.heard (d : DtmfIn) (taken : List Dtmf) : Hearing where
  seq := d.inDigitSeq
  openTs := d.inDigitTs
  lastTs := d.lastInDigitTs
  lastDuration := d.lastDuration
  flip := d.flip
  digits := taken ++ d.inqueue

/-! ### Runs of a session -/

open Hearing

/-- `switch_rtp_dequeue_dtmf`: the first digit, if any, and what is left. -/
def dequeueDtmf (d : DtmfIn) : DtmfIn × Option Dtmf :=
  match d.inqueue with
  | [] => (d, none)
  | digit :: rest => ({ d with inqueue := rest }, some digit)

/-- A packet of an event arrives, or the application asks for a digit. -/
inductive ToneInput
  | packet (p : TonePacket)
  | dequeue

def ToneInput.packet? : ToneInput → Option TonePacket
  | .packet p => some p
  | .dequeue => none

/-- A session, the digits taken, and the last packet that arrived. -/
structure Hearer where
  recv : RtpRecv
  taken : List Dtmf
  last : Option TonePacket

namespace Hearer

def receive (cfg : RtpConfig) (l : Hearer) (data : List UInt8) : Hearer :=
  let msg := receiveMsg cfg l.recv.recvMsg data
  { l with recv := (handleRfc2833 cfg true data.length { l.recv with recvMsg := msg }).1 }

def arrive (cfg : RtpConfig) (l : Hearer) (p : TonePacket) : Hearer :=
  { l.receive cfg (p.bytes cfg.recvTe) with last := some p }

def dequeue (l : Hearer) : Hearer :=
  let taken := dequeueDtmf l.recv.dtmf
  { l with recv := { l.recv with dtmf := taken.1 }, taken := l.taken ++ taken.2.toList }

def step (cfg : RtpConfig) (l : Hearer) : ToneInput → Hearer
  | .packet p => l.arrive cfg p
  | .dequeue => l.dequeue

def hearing (l : Hearer) : Hearing := l.recv.dtmf.heard l.taken

def view (l : Hearer) : Hearing × Option TonePacket := (l.hearing, l.last)

def Calm (l : Hearer) : ToneInput → Prop
  | .packet _ => l.recv.dtmf.inDigitSanity ≠ 1 ∧ l.recv.dtmf.inqueue.length < inqueueSize
  | .dequeue => True

instance (l : Hearer) : (input : ToneInput) → Decidable (l.Calm input)
  | .packet _ => inferInstanceAs (Decidable (_ ∧ _))
  | .dequeue => inferInstanceAs (Decidable True)

end Hearer

def newHearer (recv : RtpRecv) : Hearer := ⟨{ recv with dtmf := default }, [], none⟩

/-! ### The session hears as it should -/

section Simulation

variable {cfg : RtpConfig} {d : DtmfIn} {p : TonePacket} {taken : List Dtmf}

theorem heard_checkSanity (calm : d.inDigitSanity ≠ 1) :
    (checkSanity d).heard taken = d.heard taken := by
  unfold checkSanity
  rw [if_neg calm]
  split <;> rfl

theorem heard_checkBlank {msg : RtpMsg} (same : blank msg.mem (eventOffset msg 16) = p.blank) :
    (checkBlank msg 16 d).heard taken =
      { d.heard taken with openTs := if p.blank then 0 else d.inDigitTs } := by
  unfold checkBlank
  rw [same]
  by_cases blank : p.blank = true
  · by_cases closed : d.inDigitTs = 0 <;> simp [heard, blank, closed]
  · simp [heard, blank]

theorem duringDigit_eq (pt bytes : Nat) (doCng : Bool) :
    ∃ interleaved, (duringDigit cfg true pt bytes d doCng).1 =
      { d with inInterleaved := interleaved } := by
  unfold duringDigit
  simp only
  split_ifs <;> exact ⟨_, rfl⟩

theorem continueDigit_eq (hears : Hears cfg) :
    continueDigit cfg true p.event { d with inDigitSeq := p.seq.toNat } =
      { d with
        inDigitSeq := p.seq.toNat
        inDigitSanity := if d.inDigitTs = 0 then d.inDigitSanity else 2000
        flip := ((d.heard taken).advance p).flip } := by
  unfold continueDigit
  simp only [hears.durations, Bool.and_false, Bool.false_eq_true, if_false]
  unfold advance heard
  split_ifs <;> simp_all

theorem heard_endDigit (hears : Hears cfg) (regular : d.inDigitQueued = false)
    (room : d.inqueue.length < inqueueSize) :
    { endDigit cfg true p.event d with lastDuration := p.duration.toNat }.heard taken =
      (d.heard taken).finish cfg.minDtmfDuration p := by
  unfold endDigit queueRfc2833In
  simp [hears.durations, regular, room, heard, finish, duration,
    endDuration]

theorem heard_ending (hears : Hears cfg) (regular : d.inDigitQueued = false)
    (room : d.inqueue.length < inqueueSize) :
    let result : DtmfIn × Bool × Option Rfc2833Result := if d.inDigitTs != 0 then
      ({ endDigit cfg true p.event d with lastDuration := p.duration.toNat }, true, none)
      else (d, false, some .gotoRecvfrom)
    result.1.heard taken = (if (d.heard taken).openTs ≠ 0 then
        (d.heard taken).finish cfg.minDtmfDuration p else d.heard taken) ∧
      result.1.inDigitQueued = false := by
  by_cases closed : d.inDigitTs = 0
  · rw [closed]
    exact ⟨(if_neg (not_not.mpr closed)).symm, regular⟩
  · rw [if_pos (bne_iff_ne.mpr closed)]
    exact ⟨(heard_endDigit hears regular room).trans (if_pos closed).symm, rfl⟩

theorem heard_startDigit : (startDigit p.event d).heard taken = (d.heard taken).start p := rfl

theorem heard_newEvent (hears : Hears cfg) (regular : d.inDigitQueued = false)
    (room : d.inqueue.length < inqueueSize) :
    (newEvent cfg true p.event d).1.heard taken =
        (d.heard taken).accept cfg.minDtmfDuration p ∧
      (newEvent cfg true p.event d).1.inDigitQueued = false := by
  unfold newEvent
  rw [TonePacket.event_seq, @continueDigit_eq cfg d p taken hears]
  generalize (if d.inDigitTs = 0 then d.inDigitSanity else 2000) = sanity
  generalize flips : ((d.heard taken).advance p).flip = flip
  have advanced : (d.heard taken).advance p =
      { d.heard taken with seq := p.seq.toNat, flip := flip } := by
    rw [← flips]
    rfl
  unfold accept
  rw [advanced]
  simp only [TonePacket.event_ended]
  cases p.ended with
  | false =>
    by_cases closed : d.inDigitTs = 0
    · simp [closed, heard, start, startDigit, regular]
    · simp [closed, heard, regular]
  | true =>
    by_cases starts : d.inDigitTs = 0 ∧ d.lastInDigitTs ≠ p.ts.toNat
    · have pair := @heard_ending cfg (startDigit p.event
        { d with inDigitSeq := p.seq.toNat, inDigitSanity := sanity, flip := flip }) p taken hears
        regular room
      rw [heard_startDigit] at pair
      simpa [starts.1, starts.2, heard] using pair
    · have pair := @heard_ending cfg
        { d with inDigitSeq := p.seq.toNat, inDigitSanity := sanity, flip := flip } p taken hears
        regular room
      have stays : (d.inDigitTs == 0 && d.lastInDigitTs != p.ts.toNat) = false := by
        simpa using starts
      have started : ¬((d.heard taken).openTs = 0 ∧ (d.heard taken).lastTs ≠ p.ts.toNat) := starts
      simp only [stays, if_true, Bool.false_eq_true, if_false, TonePacket.event_ts,
        TonePacket.event_duration]
      rw [if_neg started]
      exact pair

theorem handleEvent_filter : handleEvent cfg true p.event d =
    if filter d.inDigitSeq p.seq.toNat < p.seq.toNat then
      newEvent cfg true p.event
        { d with inDigitSeq := filter d.inDigitSeq p.seq.toNat }
    else ({ d with inDigitSeq := filter d.inDigitSeq p.seq.toNat }, false,
      some .gotoRecvfrom) := by
  have filtered : (if p.event.seq < d.inDigitSeq && d.inDigitSeq - p.event.seq > 100 then
      { d with inDigitSeq := 0 } else d) =
      { d with inDigitSeq := filter d.inDigitSeq p.seq.toNat } := by
    by_cases wraps : p.seq.toNat < d.inDigitSeq ∧ d.inDigitSeq - p.seq.toNat > 100
    · have both := Bool.and_eq_true_iff.mpr ⟨decide_eq_true wraps.1, decide_eq_true wraps.2⟩
      refine (if_pos both).trans ?_
      rw [filter, if_pos wraps]
    · have either : ¬(decide (p.seq.toNat < d.inDigitSeq) &&
          decide (d.inDigitSeq - p.seq.toNat > 100)) = true := fun both => by
        obtain ⟨below, far⟩ := Bool.and_eq_true_iff.mp both
        exact wraps ⟨of_decide_eq_true below, of_decide_eq_true far⟩
      refine (if_neg either).trans ?_
      rw [filter, if_neg wraps]
  unfold handleEvent
  rw [filtered]
  rfl

theorem heard_handleEvent (hears : Hears cfg) (regular : d.inDigitQueued = false)
    (room : d.inqueue.length < inqueueSize) :
    (handleEvent cfg true p.event d).1.heard taken =
        (d.heard taken).sift cfg.minDtmfDuration p ∧
      (handleEvent cfg true p.event d).1.inDigitQueued = false := by
  rw [handleEvent_filter]
  unfold sift
  by_cases passes : filter d.inDigitSeq p.seq.toNat < p.seq.toNat
  · have heard : filter (d.heard taken).seq p.seq.toNat < p.seq.toNat := passes
    rw [if_pos passes]
    simp only [if_pos heard]
    exact heard_newEvent hears regular room
  · have heard : ¬filter (d.heard taken).seq p.seq.toNat < p.seq.toNat := passes
    rw [if_neg passes]
    simp only [if_neg heard]
    exact ⟨rfl, regular⟩

theorem arrive_dtmf (te : cfg.recvTe ≠ 0) (small : cfg.recvTe < 128) (noProxy : cfg.proxyMedia = false)
    (noPass : cfg.passRfc2833 = false) (l : Hearer) (p : TonePacket) :
    ∃ msg interleaved, blank msg.mem (eventOffset msg 16) = p.blank ∧
      (l.arrive cfg p).recv.dtmf =
        { (handleEvent cfg true p.event (checkBlank msg 16 (checkSanity l.recv.dtmf))).1 with
          inInterleaved := interleaved } := by
  generalize moved : receiveMsg cfg l.recv.recvMsg (p.bytes cfg.recvTe) = msg
  have tone : isTelephoneEvent cfg msg 16 = true := by
    rw [isTelephoneEvent, ← moved, pt_packet small]
    simp [noProxy, te, rtpHeaderLen]
  have read : readEvent msg 16 = p.event := by rw [← moved, readEvent_packet]
  have same : blank msg.mem (eventOffset msg 16) = p.blank := by rw [← moved, blank_packet]
  unfold Hearer.arrive Hearer.receive
  rw [moved, TonePacket.bytes_length]
  unfold handleRfc2833
  simp only [tone, if_true, noPass, read, Bool.false_eq_true, if_false]
  refine ⟨msg, ?_⟩
  generalize handleEvent cfg true p.event (checkBlank msg 16 (checkSanity l.recv.dtmf)) = handled
  obtain ⟨d', doCng, _ | result⟩ := handled
  · obtain ⟨interleaved, during⟩ := @duringDigit_eq cfg d' msg.pt 16 doCng
    exact ⟨interleaved, same, during⟩
  · exact ⟨d'.inInterleaved, same, rfl⟩

theorem hearing_packet (hears : Hears cfg) {l : Hearer}
    (regular : l.recv.dtmf.inDigitQueued = false) (calm : l.Calm (.packet p)) :
    (l.arrive cfg p).hearing = l.hearing.hear cfg.minDtmfDuration p ∧
      (l.arrive cfg p).recv.dtmf.inDigitQueued = false := by
  obtain ⟨sane, room⟩ := calm
  obtain ⟨msg, interleaved, same, state⟩ :=
    arrive_dtmf hears.te_ne hears.te_lt hears.noProxy hears.noPass l p
  generalize checked : checkBlank msg 16 (checkSanity l.recv.dtmf) = d at state
  have before : d.heard l.taken = { l.hearing with
      openTs := if p.blank then 0 else l.hearing.openTs } := by
    rw [← checked, heard_checkBlank same]
    have sanity : (checkSanity l.recv.dtmf).heard l.taken = l.hearing := heard_checkSanity sane
    rw [sanity]
    exact congrArg (fun ts => { l.hearing with openTs := if p.blank then 0 else ts })
      (congrArg openTs sanity)
  have queued : d.inDigitQueued = l.recv.dtmf.inDigitQueued ∧ d.inqueue = l.recv.dtmf.inqueue := by
    rw [← checked]
    unfold checkBlank checkSanity
    split_ifs <;> exact ⟨rfl, rfl⟩
  have heard := @heard_handleEvent cfg d p l.taken hears (queued.1.trans regular)
    (queued.2.symm ▸ room)
  rw [before] at heard
  exact ⟨(congrArg (DtmfIn.heard · l.taken) state).trans heard.1,
    (congrArg DtmfIn.inDigitQueued state).trans heard.2⟩

theorem hearing_dequeue (l : Hearer) : l.dequeue.hearing = l.hearing := by
  unfold Hearer.dequeue Hearer.hearing dequeueDtmf heard
  cases queue : l.recv.dtmf.inqueue with
  | nil => simp [queue]
  | cons digit rest => simp

theorem dequeue_queued (l : Hearer) :
    l.dequeue.recv.dtmf.inDigitQueued = l.recv.dtmf.inDigitQueued := by
  unfold Hearer.dequeue dequeueDtmf
  cases l.recv.dtmf.inqueue <;> rfl

theorem hearing_run (hears : Hears cfg) {ok : Hearing × Option TonePacket → TonePacket → Prop}
    {l : Hearer} (regular : l.recv.dtmf.inDigitQueued = false) {inputs : List ToneInput}
    (calm : Along (Hearer.step cfg)
      (fun l input => l.Calm input ∧ ∀ p ∈ input.packet?, ok l.view p) l inputs) :
    (run (Hearer.step cfg) l inputs).view =
        run (next cfg.minDtmfDuration) l.view (inputs.filterMap ToneInput.packet?) ∧
      Along (next cfg.minDtmfDuration) ok l.view
        (inputs.filterMap ToneInput.packet?) := by
  refine Along.view (I := fun l => l.recv.dtmf.inDigitQueued = false) ?_ regular calm
  intro l input regular fine
  cases input with
  | packet p =>
    obtain ⟨heard, stays⟩ := hearing_packet hears regular fine.1
    exact ⟨stays, congrArg (·, some p) heard, fine.2⟩
  | dequeue =>
    refine ⟨(dequeue_queued l).trans regular, ?_, fun _ none => absurd none (Option.not_mem_none _)⟩
    exact congrArg (·, l.last) (hearing_dequeue l)

end Simulation

end FreeSwitch
