/-
**What a session sends of a digit.**

`do_2833` sends a digit as a packet that starts it, one packet per interval, and three packets that
end it. The packets are those of telephone events (`TonePacket`), as a receiver reads them.

* `toneSteps`, `playedDuration`: for how long a digit is played, and `playedDuration_isLeast`: it is
  the least multiple of the interval, but for one interval, that is as long as requested.
-/

import FreeSwitch.Rtp.Write
import FreeSwitch.Rtp.Hearing

namespace FreeSwitch

open Run UInt32

/-! ### One packet -/

structure Speaks (cfg : RtpConfig) : Prop where
  te_lt : cfg.te < 128
  plain : cfg.secureSend = false
  noBug : cfg.sonusSendInvalidTimestamp2833 = false
  samples : 0 < cfg.samplesPerInterval
  /-- `switch_core_min_dtmf_duration` never returns 0. -/
  least : 0 < cfg.minDtmfDuration

structure ManualEnv.Passes (e : ManualEnv) : Prop where
  ready : e.ready = true
  remoteAddr : e.remoteAddr = true
  clear : e.answers.zrtp = .off
  sent : e.answers.wrote.isSome = true

def digitPacket (s : RtpSend) (m : Bool) : TonePacket where
  volume := Fin.ofNat 128 (s.dtmf.outDigitPacket.getD 1 0).toNat
  duration := UInt16.ofNat ((s.dtmf.outDigitPacket.getD 2 0).toNat * 256 +
    (s.dtmf.outDigitPacket.getD 3 0).toNat)
  m := m
  seq := UInt16.ofNat (s.seq + 1)
  ssrc := ofNat (s.sendMsg.mem.be32 8)
  code := s.dtmf.outDigitPacket.getD 0 0
  ended := 128 ≤ (s.dtmf.outDigitPacket.getD 1 0).toNat
  ts := ofNat s.dtmf.timestampDtmf

theorem be16Bytes_mod (n : Nat) : be16Bytes (n % 65536) = be16Bytes n := by
  unfold be16Bytes
  congr 1
  · rw [← UInt8.toNat_inj, UInt8.toNat_ofNat', UInt8.toNat_ofNat']
    omega
  · congr 1
    rw [← UInt8.toNat_inj, UInt8.toNat_ofNat', UInt8.toNat_ofNat']
    omega

theorem be32Bytes_mod (n : Nat) : be32Bytes (n % 4294967296) = be32Bytes n := by
  unfold be32Bytes
  rw [← be16Bytes_mod (n / 65536), ← be16Bytes_mod n, ← be16Bytes_mod (n % 4294967296)]
  congr 2 <;> omega

theorem be16Bytes_read (a b : UInt8) : be16Bytes (a.toNat * 256 + b.toNat) = [a, b] := by
  have high := a.toNat_lt
  have low := b.toNat_lt
  unfold be16Bytes
  congr 1
  · rw [← UInt8.toNat_inj, UInt8.toNat_ofNat']
    omega
  · congr 1
    rw [← UInt8.toNat_inj, UInt8.toNat_ofNat']
    omega

theorem be32Bytes_read (mem : Buffer) (o : Nat) :
    be32Bytes (mem.be32 o) = [mem o, mem (o + 1), mem (o + 2), mem (o + 3)] := by
  have low : mem.be16 (o + 2) < 65536 := by
    have first := (mem (o + 2)).toNat_lt
    have second := (mem (o + 3)).toNat_lt
    change (mem (o + 2)).toNat * 256 + (mem (o + 3)).toNat < 65536
    omega
  have split : be32Bytes (mem.be32 o) = be16Bytes (mem.be16 o) ++ be16Bytes (mem.be16 (o + 2)) := by
    unfold be32Bytes
    rw [← be16Bytes_mod (mem.be32 o)]
    congr 2
    · unfold Buffer.be32
      omega
    · unfold Buffer.be32
      omega
  rw [split]
  exact congrArg₂ (· ++ ·) (be16Bytes_read _ _) (be16Bytes_read _ _)

theorem bitAbove_read (b : UInt8) : bitAbove (128 ≤ b.toNat) (b.toNat % 128) = b := by
  have small := b.toNat_lt
  rw [← UInt8.toNat_inj, bitAbove_toNat (by omega)]
  simp only [decide_eq_true_eq]
  split <;> omega

theorem digitPacket_bytes {te : Nat} (small : te < 128) {s : RtpSend}
    (header : s.sendMsg.mem 0 = 0x80) {a b c d : UInt8}
    (packet : s.dtmf.outDigitPacket = [a, b, c, d]) (m : Bool) :
    (manualMsg s ⟨s.dtmf.outDigitPacket, m, te, s.dtmf.timestampDtmf, false⟩
      ((s.seq + 1) % 65536)).mem.slice 0 16 = (digitPacket s m).bytes te := by
  have sent : (manualMsg s ⟨[a, b, c, d], m, te, s.dtmf.timestampDtmf, false⟩
      ((s.seq + 1) % 65536)).mem.slice 0 16 =
      [s.sendMsg.mem 0, bitAbove m (te % 128)] ++ be16Bytes ((s.seq + 1) % 65536) ++
        be32Bytes s.dtmf.timestampDtmf ++
        [s.sendMsg.mem 8, s.sendMsg.mem 9, s.sendMsg.mem 10, s.sendMsg.mem 11] ++ [a, b] ++
        [c, d] := rfl
  have bytes : (digitPacket s m).bytes te = [0x80, bitAbove m te] ++
      be16Bytes (UInt16.ofNat (s.seq + 1)).toNat ++
      be32Bytes (ofNat s.dtmf.timestampDtmf).toNat ++
      be32Bytes (ofNat (s.sendMsg.mem.be32 8)).toNat ++
      [a, bitAbove (128 ≤ b.toNat) (b.toNat % 128)] ++
      be16Bytes (UInt16.ofNat (c.toNat * 256 + d.toNat)).toNat := by
    unfold TonePacket.bytes digitPacket
    rw [packet]
    rfl
  rw [packet, sent, bytes, header, Nat.mod_eq_of_lt small, bitAbove_read]
  simp only [UInt16.toNat_ofNat', toNat_ofNat', Nat.reducePow, Nat.reduceAdd, be32Bytes_mod,
    be16Bytes_mod, be32Bytes_read, be16Bytes_read]

theorem sendDigitPacket_eq {cfg : RtpConfig} (speaks : Speaks cfg) {s : RtpSend}
    (header : s.sendMsg.mem 0 = 0x80) {a b c d : UInt8}
    (packet : s.dtmf.outDigitPacket = [a, b, c, d]) (m : Bool) {e : ManualEnv}
    (passes : e.Passes) :
    ∃ writeMsg stats, sendDigitPacket cfg m s e = { s with
      seq := (s.seq + 1) % 65536
      log := s.log ++ [⟨(digitPacket s m).bytes cfg.te, none, e.answers.wrote⟩]
      writeMsg := writeMsg
      stats := stats } := by
  have goes : e.goes s.dtmf.outDigitPacket = true := by
    simp [ManualEnv.goes, passes.ready, passes.remoteAddr, packet, rtpMaxBufLen]
  obtain ⟨w, wrote⟩ := Option.isSome_iff_exists.mp passes.sent
  have length : rtpHeaderLen + s.dtmf.outDigitPacket.length = 16 := by rw [packet]; rfl
  have zrtp : ∀ msg bytes, zrtpProcess cfg msg bytes e.answers.zrtp = some (msg, bytes) := by
    intro msg bytes
    rw [passes.clear, zrtpProcess]
    split <;> rfl
  unfold sendDigitPacket rtpWriteManual
  simp only [goes, if_true, length, transmit, srtpProtect, speaks.plain, zrtp, socketSendto, wrote,
    Bool.false_eq_true, if_false, digitPacket_bytes speaks.te_lt header packet]
  exact ⟨_, _, rfl⟩

theorem digitDelay_frame (cfg : RtpConfig) (s : RtpSend) (samplecount : Nat) :
    ∃ queueDelay delaySamples, (digitDelay cfg s samplecount).1 =
      { s with queueDelay := queueDelay, delaySamples := delaySamples } := by
  unfold digitDelay
  split_ifs <;> exact ⟨_, _, rfl⟩

/-! ### How long a digit is played -/

def toneSteps (samples requested : Nat) : Nat := max 2 ((requested + samples - 1) / samples)

def playedDuration (samples requested : Nat) : Nat := toneSteps samples requested * samples

theorem two_le_toneSteps (samples requested : Nat) : 2 ≤ toneSteps samples requested :=
  le_max_left _ _

theorem toneSteps_le_iff {samples : Nat} (positive : 0 < samples) (requested steps : Nat) :
    toneSteps samples requested ≤ steps ↔ 2 ≤ steps ∧ requested ≤ steps * samples := by
  rw [toneSteps, max_le_iff, Nat.div_le_iff_le_mul_add_pred positive, Nat.mul_comm samples]
  refine and_congr_right fun _ => ?_
  omega

/-- **The duration played** is the least multiple of the interval, beyond one, that is as long as
requested. -/
theorem playedDuration_isLeast {samples : Nat} (positive : 0 < samples) (requested : Nat) :
    IsLeast {played | ∃ steps, 2 ≤ steps ∧ played = steps * samples ∧ requested ≤ played}
      (playedDuration samples requested) := by
  obtain ⟨two, enough⟩ := (toneSteps_le_iff positive requested _).mp le_rfl
  refine ⟨⟨_, two, rfl, enough⟩, ?_⟩
  rintro played ⟨steps, two, rfl, enough⟩
  exact Nat.mul_le_mul_right _ ((toneSteps_le_iff positive requested steps).mpr ⟨two, enough⟩)

/-! ### The state while a digit is sent -/

def toneKeys : List Char := "0123456789*#ABCD".toList

theorem toneKeys_code : ∀ key ∈ toneKeys,
    rfc2833ToChar (UInt8.ofNat (charToRfc2833 key)).toNat = key ∧ key ≠ 'w' ∧ key ≠ 'W' := by
  have listed : toneKeys = ['0', '1', '2', '3', '4', '5', '6', '7', '8', '9', '*', '#', 'A', 'B',
    'C', 'D'] := by decide +kernel
  intro key member
  rw [listed] at member
  fin_cases member <;> decide +kernel

/-- A digit with a code, whose played duration fits 16 bits. -/
structure Playable (cfg : RtpConfig) (digit : Dtmf) : Prop where
  key : digit.digit ∈ toneKeys
  positive : 0 < digit.duration
  short : playedDuration cfg.samplesPerInterval digit.duration ≤ 0xFFFF

def tonePayload (key : Char) (ended : Bool) (duration : Nat) : List UInt8 :=
  [UInt8.ofNat (charToRfc2833 key), if ended then 141 else 13, UInt8.ofNat (duration / 256),
    UInt8.ofNat duration]

/-- The digit is being sent, and `steps` intervals of it have been. -/
structure InDigit (cfg : RtpConfig) (d : DtmfOut) (digit : Dtmf) (steps : Nat) : Prop where
  duration : d.outDigitDur = digit.duration
  sofar : d.outDigitSofar = steps * cfg.samplesPerInterval
  subSofar : d.outDigitSubSofar = steps * cfg.samplesPerInterval
  packet : d.outDigitPacket =
    tonePayload digit.digit false (steps * cfg.samplesPerInterval)
  started : 1 ≤ steps
  goes : steps < toneSteps cfg.samplesPerInterval digit.duration

section Interval

variable {cfg : RtpConfig} {d : DtmfOut} {digit : Dtmf} {steps : Nat}

theorem InDigit.short (inside : InDigit cfg d digit steps) (playable : Playable cfg digit) :
    (steps + 1) * cfg.samplesPerInterval ≤ 0xFFFF :=
  le_trans (Nat.mul_le_mul_right _ inside.goes) playable.short

theorem advanceDigit_eq (inside : InDigit cfg d digit steps) (playable : Playable cfg digit) :
    advanceDigit cfg d = { d with
      outDigitSofar := (steps + 1) * cfg.samplesPerInterval
      outDigitSubSofar := (steps + 1) * cfg.samplesPerInterval
      outDigitPacket := tonePayload digit.digit
        (digit.duration ≤ (steps + 1) * cfg.samplesPerInterval)
        ((steps + 1) * cfg.samplesPerInterval) } := by
  have short := inside.short playable
  have sum : (steps * cfg.samplesPerInterval + cfg.samplesPerInterval) % 2 ^ 32 =
      (steps + 1) * cfg.samplesPerInterval := by
    rw [Nat.succ_mul] at short ⊢
    omega
  have fits : ¬(steps + 1) * cfg.samplesPerInterval > 0xFFFF := not_lt.mpr short
  unfold advanceDigit
  simp only [inside.sofar, inside.subSofar, sum, inside.packet, inside.duration, fits, if_false]
  by_cases last : digit.duration ≤ (steps + 1) * cfg.samplesPerInterval
  · simp only [last, if_true, decide_true]
    rfl
  · simp only [last, if_false, decide_false]
    rfl

theorem InDigit.last_iff (inside : InDigit cfg d digit steps) (speaks : Speaks cfg) :
    digit.duration ≤ (steps + 1) * cfg.samplesPerInterval ↔
      steps + 1 = toneSteps cfg.samplesPerInterval digit.duration := by
  have least := toneSteps_le_iff speaks.samples digit.duration (steps + 1)
  have goes := inside.goes
  have started := inside.started
  constructor
  · intro enough
    have reached := least.mpr ⟨by omega, enough⟩
    omega
  · intro reached
    exact (least.mp reached.ge).2

theorem InDigit.next (inside : InDigit cfg d digit steps) (speaks : Speaks cfg)
    (playable : Playable cfg digit)
    (more : ¬digit.duration ≤ (steps + 1) * cfg.samplesPerInterval) :
    InDigit cfg (advanceDigit cfg d) digit (steps + 1) := by
  have goes : steps + 1 < toneSteps cfg.samplesPerInterval digit.duration :=
    lt_of_le_of_ne inside.goes fun last => more ((inside.last_iff speaks).mpr last)
  rw [advanceDigit_eq inside playable, decide_eq_false more]
  exact ⟨inside.duration, rfl, rfl, rfl, Nat.le_add_left 1 steps, goes⟩

end Interval

end FreeSwitch
