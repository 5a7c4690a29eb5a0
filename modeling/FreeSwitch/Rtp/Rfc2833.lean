/-
**Telephone events.**

`handle_rfc2833`, which reads a packet of the telephone-event type in the receive buffer and queues
a digit when the event has ended.

* `handleRfc2833_inqueue`: a digit is only queued for a packet of that type that is longer than its
  header.
-/

import FreeSwitch.Rtp.Session

namespace FreeSwitch

/-- `handle_rfc2833_result_t`. -/
inductive Rfc2833Result
  | proceed
  | gotoEnd
  | gotoRecvfrom
  | gotoTimercheck
  deriving DecidableEq

def rfc2833Chars : List Char := "0123456789*#ABCDF".toList

def rfc2833ToChar (event : Nat) : Char := rfc2833Chars.getD event '\x00'

/-- The size of `dtmf_inqueue`. -/
def inqueueSize : Nat := 100

variable (cfg : RtpConfig) (ready : Bool)

def queueRfc2833In (dtmf : Dtmf) (d : DtmfIn) : DtmfIn :=
  if ready && d.inqueue.length < inqueueSize then
    { d with inqueue := d.inqueue ++ [⟨dtmf.digit, max dtmf.duration cfg.minDtmfDuration⟩] }
  else d

structure TelephoneEvent where
  key : Char
  ended : Bool
  duration : Nat
  seq : Nat
  ts : Nat

def blank (mem : Buffer) (offset : Nat) : Bool :=
  mem offset = 0 && mem (offset + 1) = 0 && mem (offset + 2) = 0 && mem (offset + 3) = 0

/-- Where the event stands in a packet of `bytes` bytes: some senders put four zero bytes in front.
-/
def eventOffset (msg : RtpMsg) (bytes : Nat) : Nat :=
  if blank msg.mem msg.body && 8 ≤ bytes - rtpHeaderLen then msg.body + 4 else msg.body

def readEvent (msg : RtpMsg) (bytes : Nat) : TelephoneEvent :=
  let packet := eventOffset msg bytes
  { key := rfc2833ToChar (msg.mem packet).toNat
    ended := 128 ≤ (msg.mem (packet + 1)).toNat
    duration := msg.mem.be16 (packet + 2)
    seq := msg.seq
    ts := msg.ts }

def isTelephoneEvent (msg : RtpMsg) (bytes : Nat) : Bool :=
  rtpHeaderLen < bytes && !cfg.proxyMedia && cfg.recvTe != 0 && msg.pt == cfg.recvTe

def countPassing (passing : Nat) : Nat :=
  if passing = 0 then 0 else if passing + 1 > 1000 then 0 else passing + 1

def checkSanity (d : DtmfIn) : DtmfIn :=
  if d.inDigitSanity = 0 then d
  else if d.inDigitSanity = 1 then
    { d with inDigitSanity := 0, lastDigit := '\x00', inDigitTs := 0 }
  else { d with inDigitSanity := d.inDigitSanity - 1 }

def checkBlank (msg : RtpMsg) (bytes : Nat) (d : DtmfIn) : DtmfIn :=
  if blank msg.mem (eventOffset msg bytes) && d.inDigitTs != 0 then
    { d with lastDigit := '\x00', inDigitTs := 0, inDigitSanity := 0 }
  else d

variable (te : TelephoneEvent)

def startDigit (d : DtmfIn) : DtmfIn :=
  { d with
    inDigitTs := te.ts
    lastInDigitTs := te.ts
    firstDigit := te.key
    inDigitSanity := 2000 }

def endDuration (d : DtmfIn) : Nat :=
  let duration := if te.ts > d.inDigitTs then te.duration + (te.ts - d.inDigitTs) else te.duration
  (duration + d.flip * 65535) % 2 ^ 32

def endDigit (d : DtmfIn) : DtmfIn :=
  let dtmf : Dtmf := ⟨te.key, endDuration te d⟩
  let queued := if !cfg.ignoreDtmfDuration && !d.inDigitQueued then queueRfc2833In cfg ready dtmf d
    else d
  { queued with
    flip := 0
    lastDigit := queued.firstDigit
    inDigitTs := 0
    inDigitSanity := 0
    inDigitQueued := false }

/-- Before the end of a digit is looked at: it is queued early, if durations are ignored, and the
counters are set. -/
def continueDigit (d : DtmfIn) : DtmfIn :=
  let d := if !d.inDigitQueued && d.inDigitTs != 0 && cfg.ignoreDtmfDuration then
    { queueRfc2833In cfg ready ⟨te.key, cfg.minDtmfDuration⟩ d with inDigitQueued := true } else d
  let d := if d.inDigitTs != 0 then { d with inDigitSanity := 2000 } else d
  if d.lastDuration > te.duration && d.lastDuration > 0xFC17 && te.ts == d.inDigitTs then
    { d with flip := d.flip + 1 } else d

/-- A new sequence number: the digits, whether comfort noise is due, and the result, if it returns
with one. -/
def newEvent (d : DtmfIn) : DtmfIn × Bool × Option Rfc2833Result :=
  let d := continueDigit cfg ready te { d with inDigitSeq := te.seq }
  if te.ended then
    let d := if d.inDigitTs == 0 && d.lastInDigitTs != te.ts then startDigit te d else d
    if d.inDigitTs != 0 then
      ({ endDigit cfg ready te d with lastDuration := te.duration }, true, none)
    else (d, false, some (if ready then .gotoRecvfrom else .gotoEnd))
  else
    let d := if d.inDigitTs == 0 then startDigit te d else d
    ({ d with lastDuration := te.duration }, false, none)

/-- A telephone event. A sequence number far below the last starts over; one that is not above it is
dropped. -/
def handleEvent (d : DtmfIn) : DtmfIn × Bool × Option Rfc2833Result :=
  let d := if te.seq < d.inDigitSeq && d.inDigitSeq - te.seq > 100 then { d with inDigitSeq := 0 }
    else d
  if te.seq > d.inDigitSeq then newEvent cfg ready te d else (d, false, some .gotoRecvfrom)

def flushesJb (d : DtmfIn) : Bool :=
  let seq := if te.seq < d.inDigitSeq && d.inDigitSeq - te.seq > 100 then 0 else d.inDigitSeq
  te.seq > seq && !d.inDigitQueued && d.inDigitTs != 0 && cfg.flushJbOnDtmf

/-- The end of `handle_rfc2833`: while a digit goes on, its packets are not passed on. -/
def duringDigit (pt bytes : Nat) (d : DtmfIn) (doCng : Bool) : DtmfIn × Bool × Rfc2833Result :=
  if bytes != 0 && d.inDigitTs != 0 then
    if !ready then (d, doCng, .gotoEnd)
    else
      let d := if !d.inInterleaved && pt != cfg.recvTe then { d with inInterleaved := true } else d
      if d.inInterleaved || cfg.ignoreDtmfDuration then
        (d, doCng, if pt == cfg.recvTe then .gotoRecvfrom else .proceed)
      else (d, true, .gotoTimercheck)
  else (d, doCng, .proceed)

/-- **`handle_rfc2833`**: the session, whether `do_cng` is set, and the result. -/
def handleRfc2833 (bytes : Nat) (s : RtpRecv) : RtpRecv × Bool × Rfc2833Result :=
  let s := { s with passingDtmf := countPassing s.passingDtmf, dtmf := checkSanity s.dtmf }
  let msg := s.recvMsg
  if isTelephoneEvent cfg msg bytes then
    let te := readEvent msg bytes
    let d := checkBlank msg bytes s.dtmf
    if cfg.passRfc2833 then
      let passing := if te.ended then 998 else if s.passingDtmf = 0 then 1 else s.passingDtmf
      ({ s with passingDtmf := passing, dtmf := d }, false, .proceed)
    else
      let s := if flushesJb cfg te d then { s with jb := s.jb.map fun _ => [] } else s
      match handleEvent cfg ready te d with
      | (d, doCng, some result) => ({ s with dtmf := d }, doCng, result)
      | (d, doCng, none) =>
        let rest := duringDigit cfg ready msg.pt bytes d doCng
        ({ s with dtmf := rest.1 }, rest.2)
  else
    let rest := duringDigit cfg ready msg.pt bytes s.dtmf false
    ({ s with dtmf := rest.1 }, rest.2)

/-! ### Which packets queue a digit -/

theorem checkSanity_eq {d : DtmfIn} (calm : d.inDigitSanity ≠ 1) :
    checkSanity d = { d with inDigitSanity := d.inDigitSanity - 1 } := by
  unfold checkSanity
  rw [if_neg calm]
  split_ifs with zero
  · rw [zero, Nat.zero_sub, ← zero]
  · rfl

theorem checkSanity_inqueue (d : DtmfIn) : (checkSanity d).inqueue = d.inqueue := by
  unfold checkSanity
  split_ifs <;> rfl

theorem duringDigit_inqueue (pt bytes : Nat) (d : DtmfIn) (doCng : Bool) :
    (duringDigit cfg ready pt bytes d doCng).1.inqueue = d.inqueue := by
  unfold duringDigit
  simp only
  split_ifs <;> rfl

theorem handleRfc2833_inqueue {cfg : RtpConfig} {bytes : Nat} {s : RtpRecv}
    (other : isTelephoneEvent cfg s.recvMsg bytes = false) :
    (handleRfc2833 cfg ready bytes s).1.dtmf.inqueue = s.dtmf.inqueue := by
  unfold handleRfc2833
  simp only [other, Bool.false_eq_true, if_false]
  rw [duringDigit_inqueue, checkSanity_inqueue]

theorem handleRfc2833_frame (bytes : Nat) (s : RtpRecv) :
    (handleRfc2833 cfg ready bytes s).1.recvMsg = s.recvMsg ∧
      ((handleRfc2833 cfg ready bytes s).1.jb = s.jb ∨
        (handleRfc2833 cfg ready bytes s).1.jb = s.jb.map fun _ => []) := by
  unfold handleRfc2833
  simp only
  split
  · split
    · exact ⟨rfl, .inl rfl⟩
    · split_ifs with flushes
      · split <;> exact ⟨rfl, .inr rfl⟩
      · split <;> exact ⟨rfl, .inl rfl⟩
  · exact ⟨rfl, .inl rfl⟩

end FreeSwitch
