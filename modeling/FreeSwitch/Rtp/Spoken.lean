/-
**What a call of `do_2833` sends, and what is heard of it.**

The packets of a digit in the order they are sent, for a receiver that gets them at once: while a
digit is sounding it is open at the receiver, too, or has not started there (`Spoken`).

* `ended_of_waiting`, `ended_end`: of the three packets at the end, the first that counts ends the
  digit, and the others change nothing.
-/

import FreeSwitch.Rtp.Speaking

namespace FreeSwitch

open Hearing List Run

/-! ### Hearing packets without gaps -/

def Follows (h : Hearing) (p : TonePacket) : Prop :=
  h.seq = 0 ∧ h.openTs = 0 ∨ h.seq < 65536 ∧ p.seq.toNat = (h.seq + 1) % 65536

/-- A packet as `do_2833` sends it, with a timestamp and not blank. -/
structure Heeded (h : Hearing) (p : TonePacket) : Prop where
  follows : Follows h p
  timed : p.ts.toNat ≠ 0
  full : p.blank = false

/-- A digit of this timestamp has not started, or is open and no longer than `duration`. -/
structure Waiting (ts duration : Nat) (h : Hearing) : Prop where
  flip : h.flip = 0
  phase : h.openTs = 0 ∧ h.lastTs ≠ ts ∨
    h.openTs = ts ∧ h.lastTs = ts ∧ h.lastDuration ≤ duration

structure Ended (ts : Nat) (h : Hearing) : Prop where
  flip : h.flip = 0
  closed : h.openTs = 0
  lastTs : h.lastTs = ts

section Hearing

variable (least : Nat) {ts duration : Nat} {h : Hearing} {p : TonePacket}

theorem filter_zero (follows : Follows h p) (zero : p.seq.toNat = 0) :
    Hearing.filter h.seq p.seq.toNat = 0 := by
  unfold Hearing.filter
  rcases follows with ⟨first, -⟩ | ⟨small, next⟩
  · rw [first, ite_self]
  · exact if_pos (by omega)

theorem filter_lt (follows : Follows h p) (counts : p.seq.toNat ≠ 0) :
    Hearing.filter h.seq p.seq.toNat < p.seq.toNat := by
  unfold Hearing.filter
  rcases follows with ⟨first, -⟩ | ⟨small, next⟩
  · rw [first, ite_self]
    exact Nat.pos_of_ne_zero counts
  · rw [if_neg (by omega)]
    omega

theorem hear_heeded (heeded : Heeded h p) :
    h.hear least p = if p.seq.toNat = 0 then { h with seq := 0 } else h.accept least p := by
  unfold hear sift
  simp only [heeded.full, Bool.false_eq_true, if_false]
  split_ifs with passes zero zero
  · rw [filter_zero heeded.follows zero] at passes
    exact absurd zero.symm (Nat.ne_of_lt passes)
  · rfl
  · rw [filter_zero heeded.follows zero]
  · exact absurd (filter_lt heeded.follows zero) passes

theorem hear_seq (heeded : Heeded h p) : (h.hear least p).seq = p.seq.toNat := by
  rw [hear_heeded least heeded]
  split_ifs with zero
  · exact zero.symm
  · unfold accept advance
    simp only [apply_ite seq, start, finish, ite_self]

theorem waiting_skip (waiting : Waiting ts duration h) (heeded : Heeded h p)
    (zero : p.seq.toNat = 0) :
    Waiting ts duration (h.hear least p) ∧ (h.hear least p).digits = h.digits := by
  rw [hear_heeded least heeded, if_pos zero]
  exact ⟨⟨waiting.flip, waiting.phase⟩, rfl⟩

theorem advance_flip (waiting : Waiting ts duration h) (timed : p.ts.toNat ≠ 0)
    (longer : duration ≤ p.duration.toNat) : (h.advance p).flip = 0 := by
  refine (if_neg ?_).trans waiting.flip
  simp only [Bool.and_eq_true, decide_eq_true_eq, beq_iff_eq]
  rintro ⟨⟨turned, -⟩, same⟩
  rcases waiting.phase with ⟨closed, -⟩ | ⟨-, -, shorter⟩
  · exact timed (same.trans closed)
  · omega

theorem waiting_update (waiting : Waiting ts duration h) (heeded : Heeded h p)
    (own : p.ts.toNat = ts) (update : p.ended = false) (longer : duration ≤ p.duration.toNat) :
    Waiting ts p.duration.toNat (h.hear least p) ∧ (h.hear least p).digits = h.digits := by
  by_cases zero : p.seq.toNat = 0
  · obtain ⟨skipped, same⟩ := waiting_skip least waiting heeded zero
    refine ⟨⟨skipped.flip, skipped.phase.imp_right ?_⟩, same⟩
    exact fun ⟨opened, last, shorter⟩ => ⟨opened, last, shorter.trans longer⟩
  · have flip := advance_flip waiting heeded.timed longer
    rw [hear_heeded least heeded, if_neg zero]
    unfold accept
    simp only [update, Bool.false_eq_true, if_false]
    split_ifs with closed
    · exact ⟨⟨flip, .inr ⟨own, own, le_rfl⟩⟩, rfl⟩
    · obtain ⟨opened, last, -⟩ := waiting.phase.resolve_left fun phase => closed phase.1
      exact ⟨⟨flip, .inr ⟨opened, last, le_rfl⟩⟩, rfl⟩

theorem ended_of_waiting (waiting : Waiting ts duration h) (heeded : Heeded h p)
    (own : p.ts.toNat = ts) (isEnd : p.ended = true) (longer : duration ≤ p.duration.toNat)
    (counts : p.seq.toNat ≠ 0) :
    Ended ts (h.hear least p) ∧
      (h.hear least p).digits = h.digits ++ [⟨p.key, max p.duration.toNat least⟩] := by
  have flip := advance_flip waiting heeded.timed longer
  have short : p.duration.toNat % 2 ^ 32 = p.duration.toNat :=
    Nat.mod_eq_of_lt (p.duration.toNat_lt.trans (by decide))
  -- whether it has started before or starts now, the digit is open when it ends
  have finished : ∀ g : Hearing, g.flip = 0 → g.openTs = ts → g.lastTs = ts →
      g.digits = h.digits → Ended ts (g.finish least p) ∧
      (g.finish least p).digits = h.digits ++ [⟨p.key, max p.duration.toNat least⟩] := by
    intro g flip opened last digits
    refine ⟨⟨rfl, rfl, last⟩, ?_⟩
    unfold Hearing.finish Hearing.duration
    simp only [digits, flip, opened, own, lt_irrefl, if_false, Nat.zero_mul, Nat.add_zero,
      short]
  rw [hear_heeded least heeded, if_neg counts]
  unfold Hearing.accept
  simp only [isEnd, if_true]
  rcases waiting.phase with ⟨closed, other⟩ | ⟨opened, last, -⟩
  · have starts : (h.advance p).openTs = 0 ∧ (h.advance p).lastTs ≠ p.ts.toNat :=
      ⟨closed, own ▸ other⟩
    have opens : ((h.advance p).start p).openTs ≠ 0 := heeded.timed
    rw [if_pos starts, if_pos opens]
    exact finished _ flip own own rfl
  · have open' : (h.advance p).openTs ≠ 0 := opened.trans own.symm ▸ heeded.timed
    have started : ¬((h.advance p).openTs = 0 ∧ (h.advance p).lastTs ≠ p.ts.toNat) :=
      fun starts => open' starts.1
    rw [if_neg started, if_pos open']
    exact finished _ flip opened last rfl

theorem ended_end (ended : Ended ts h) (heeded : Heeded h p) (own : p.ts.toNat = ts)
    (isEnd : p.ended = true) :
    Ended ts (h.hear least p) ∧ (h.hear least p).digits = h.digits := by
  rw [hear_heeded least heeded]
  split_ifs with zero
  · exact ⟨{ ended with }, rfl⟩
  · have flip : (h.advance p).flip = 0 := by
      refine (if_neg ?_).trans ended.flip
      simp only [Bool.and_eq_true, beq_iff_eq]
      exact fun turned => heeded.timed (turned.2.trans ended.closed)
    have closed : (h.advance p).openTs = 0 := ended.closed
    unfold accept
    simp only [isEnd, if_true]
    have started : ¬((h.advance p).openTs = 0 ∧ (h.advance p).lastTs ≠ p.ts.toNat) :=
      fun starts => starts.2 (ended.lastTs.trans own.symm)
    rw [if_neg started, if_neg (not_not.mpr closed)]
    exact ⟨⟨flip, closed, ended.lastTs⟩, rfl⟩

end Hearing

/-! ### What is sent -/

def receivedDigit (cfg : RtpConfig) (least : Nat) (digit : Dtmf) : Dtmf :=
  ⟨digit.digit, max (playedDuration cfg.samplesPerInterval digit.duration) least⟩

/-- No digit is being sent: what a receiver has heard are those sent before. -/
structure Resting (cfg : RtpConfig) (least : Nat) (all : List Dtmf) (s : RtpSend) (h : Hearing) :
    Prop where
  silent : s.dtmf.outDigitDur = 0
  heard : ∃ done, all = done ++ s.dtmf.dtmfQueue ∧ h.digits = done.map (receivedDigit cfg least)
  flip : h.flip = 0
  closed : h.openTs = 0
  behind : h.lastTs ≤ s.lastWriteTs

structure Sounding (cfg : RtpConfig) (least : Nat) (all : List Dtmf) (s : RtpSend) (h : Hearing)
    (digit : Dtmf) (steps : Nat) : Prop where
  inside : InDigit cfg s.dtmf digit steps
  heard : ∃ done, all = done ++ digit :: s.dtmf.dtmfQueue ∧
    h.digits = done.map (receivedDigit cfg least)
  waiting : Waiting s.dtmf.timestampDtmf (steps * cfg.samplesPerInterval) h
  timed : s.dtmf.timestampDtmf ≠ 0
  behind : s.dtmf.timestampDtmf ≤ s.lastWriteTs

/-- **A sender, and what a receiver has heard that gets its packets at once.** -/
structure Spoken (cfg : RtpConfig) (least : Nat) (all : List Dtmf) (s : RtpSend) (h : Hearing) :
    Prop where
  header : s.sendMsg.mem 0 = 0x80
  small : s.seq < 65536
  written : s.lastWriteTs ≠ 0
  stamped : s.lastWriteTs < 2 ^ 32
  number : h.seq = 0 ∧ h.openTs = 0 ∨ h.seq = s.seq
  phase : Resting cfg least all s h ∨ ∃ digit steps, Sounding cfg least all s h digit steps

def delaySamples (cfg : RtpConfig) : Nat :=
  cfg.interdigitDelay * (cfg.samplesPerSecond / 1000) % 2 ^ 32

def Unwrapped (cfg : RtpConfig) (s : RtpSend) : Prop :=
  s.lastWriteTs + max cfg.samplesPerInterval (delaySamples cfg) < 2 ^ 32

/-- Nothing keeps the packets of a call of `do_2833` from being sent. -/
structure DigitEnv.Passes (e : DigitEnv) : Prop where
  first : e.first.Passes
  second : e.second.Passes
  third : e.third.Passes

structure IsTone (p : TonePacket) (key : Char) (ended : Bool) (duration ts : Nat) : Prop where
  key : p.key = key
  ended : p.ended = ended
  duration : p.duration.toNat = duration
  ts : p.ts.toNat = ts

/-- The packet to be sent is set, and has the number next to what was heard. -/
structure Loaded (s : RtpSend) (h : Hearing) (key : Char) (ended : Bool) (duration ts : Nat) :
    Prop where
  header : s.sendMsg.mem 0 = 0x80
  small : s.seq < 65536
  packet : s.dtmf.outDigitPacket = tonePayload key ended duration
  ts : s.dtmf.timestampDtmf = ts
  number : h.seq = 0 ∧ h.openTs = 0 ∨ h.seq = s.seq

structure Emits (cfg : RtpConfig) (s s' : RtpSend) (h : Hearing) (p : TonePacket) : Prop where
  heeded : Heeded h p
  lastWriteTs : s'.lastWriteTs = s.lastWriteTs
  dtmf : s'.dtmf = s.dtmf
  log : s'.log.map Sent.data = s.log.map Sent.data ++ [p.bytes cfg.te]
  number : p.seq.toNat = (s.seq + 1) % 65536
  next : p.seq.toNat = s'.seq

/-- The calls of `do_2833` for the rest of a digit and those in the queue. -/
def ticksLeft (cfg : RtpConfig) (d : DtmfOut) : Nat :=
  (if d.outDigitDur = 0 then 0
    else toneSteps cfg.samplesPerInterval d.outDigitDur -
      d.outDigitSofar / cfg.samplesPerInterval) +
    (d.dtmfQueue.map fun digit => toneSteps cfg.samplesPerInterval digit.duration).sum

def Sends (cfg : RtpConfig) (least : Nat) (all : List Dtmf) (s s' : RtpSend) (h : Hearing)
    (left : Nat) : Prop :=
  ∃ packets h', s'.log.map Sent.data = s.log.map Sent.data ++ packets.map (·.bytes cfg.te) ∧
    Leads (hear least) Heeded h packets h' ∧ Spoken cfg least all s' h' ∧
    ticksLeft cfg s'.dtmf = left

section Sending

variable {cfg : RtpConfig} {least : Nat} {all : List Dtmf} {s : RtpSend} {h : Hearing}
  {digit : Dtmf} {steps : Nat}

theorem ticksLeft_inDigit {d : DtmfOut} (inside : InDigit cfg d digit steps) (speaks : Speaks cfg)
    (playable : Playable cfg digit) :
    ticksLeft cfg d = toneSteps cfg.samplesPerInterval digit.duration - steps +
      (d.dtmfQueue.map fun digit => toneSteps cfg.samplesPerInterval digit.duration).sum := by
  have positive := playable.positive
  unfold ticksLeft
  rw [inside.duration, if_neg (by omega), inside.sofar, Nat.mul_div_cancel _ speaks.samples]

theorem ticksLeft_silent {d : DtmfOut} (silent : d.outDigitDur = 0) :
    ticksLeft cfg d =
      (d.dtmfQueue.map fun digit => toneSteps cfg.samplesPerInterval digit.duration).sum := by
  rw [ticksLeft, if_pos silent, Nat.zero_add]

section Packet

variable {key : Char} {ended : Bool} {duration ts : Nat}

theorem Loaded.isTone (loaded : Loaded s h key ended duration ts) (short : duration ≤ 0xFFFF)
    (code : key ∈ toneKeys) (stamped : ts < 2 ^ 32) (m : Bool) :
    IsTone (digitPacket s m) key ended duration ts := by
  have bytes : (UInt8.ofNat (duration / 256)).toNat * 256 + (UInt8.ofNat duration).toNat =
      duration := be16Bytes_toNat (by omega)
  unfold digitPacket
  rw [loaded.packet, loaded.ts]
  refine ⟨(toneKeys_code key code).1, ?_, ?_, UInt32.toNat_ofNat_of_lt' stamped⟩
  · cases ended <;> rfl
  · change (UInt16.ofNat ((UInt8.ofNat (duration / 256)).toNat * 256 +
      (UInt8.ofNat duration).toNat)).toNat = duration
    rw [bytes]
    exact UInt16.toNat_ofNat_of_lt' (Nat.lt_succ_of_le short)

theorem Loaded.heeded (loaded : Loaded s h key ended duration ts) (timed : ts ≠ 0)
    (stamped : ts < 2 ^ 32) (m : Bool) : Heeded h (digitPacket s m) := by
  have seq : (digitPacket s m).seq.toNat = (s.seq + 1) % 65536 := UInt16.toNat_ofNat'
  refine ⟨?_, ?_, ?_⟩
  · rcases loaded.number with first | same
    · exact .inl first
    · exact .inr ⟨same ▸ loaded.small, by rw [seq, same]⟩
  · unfold digitPacket
    rw [loaded.ts]
    exact (UInt32.toNat_ofNat_of_lt' stamped).symm ▸ timed
  · unfold TonePacket.blank digitPacket
    rw [loaded.packet]
    cases ended <;> simp [tonePayload]

theorem send_heeded (speaks : Speaks cfg) (loaded : Loaded s h key ended duration ts)
    (short : duration ≤ 0xFFFF) (code : key ∈ toneKeys) (timed : ts ≠ 0) (stamped : ts < 2 ^ 32)
    (least : Nat) (m : Bool) {e : ManualEnv} (passes : e.Passes) :
    ∃ p, IsTone p key ended duration ts ∧ Emits cfg s (sendDigitPacket cfg m s e) h p ∧
      Loaded (sendDigitPacket cfg m s e) (h.hear least p) key ended duration ts := by
  have heeded := loaded.heeded timed stamped m
  have seq : (digitPacket s m).seq.toNat = (s.seq + 1) % 65536 := UInt16.toNat_ofNat'
  obtain ⟨writeMsg, stats, sent⟩ :=
    sendDigitPacket_eq speaks loaded.header loaded.packet m passes
  rw [sent]
  refine ⟨digitPacket s m, loaded.isTone short code stamped m,
    ⟨heeded, rfl, rfl, map_append, seq, seq⟩, ?_⟩
  exact ⟨loaded.header, Nat.mod_lt _ (by decide), loaded.packet, loaded.ts,
    .inr ((hear_seq least heeded).trans seq)⟩

end Packet

theorem Sounding.member (sounding : Sounding cfg least all s h digit steps) : digit ∈ all := by
  obtain ⟨done, split, -⟩ := sounding.heard
  rw [split]
  exact mem_append_right _ mem_cons_self

theorem Sounding.loaded (sounding : Sounding cfg least all s h digit steps)
    (spoken : Spoken cfg least all s h) (playable : Playable cfg digit) :
    Loaded { s with dtmf := advanceDigit cfg s.dtmf } h digit.digit
      (digit.duration ≤ (steps + 1) * cfg.samplesPerInterval)
      ((steps + 1) * cfg.samplesPerInterval) s.dtmf.timestampDtmf := by
  have advanced := advanceDigit_eq sounding.inside playable
  exact { spoken with packet := by rw [advanced], ts := by rw [advanced] }

theorem afterEnd_frame (unwrapped : s.lastWriteTs + delaySamples cfg < 2 ^ 32) (samplecount : Nat) :
    (afterEnd cfg s samplecount).sendMsg = s.sendMsg ∧
      (afterEnd cfg s samplecount).seq = s.seq ∧ (afterEnd cfg s samplecount).log = s.log ∧
      (afterEnd cfg s samplecount).dtmf = { s.dtmf with outDigitDur := 0 } ∧
      s.lastWriteTs ≤ (afterEnd cfg s samplecount).lastWriteTs ∧
      (afterEnd cfg s samplecount).lastWriteTs < 2 ^ 32 := by
  have stamped : s.lastWriteTs < 2 ^ 32 := lt_of_le_of_lt (Nat.le_add_right _ _) unwrapped
  have delayed := Nat.mod_eq_of_lt unwrapped
  unfold afterEnd setDtmfDelay
  by_cases none : cfg.interdigitDelay = 0
  · rw [if_pos none]
    exact ⟨rfl, rfl, rfl, rfl, le_rfl, stamped⟩
  · rw [if_neg none]
    cases cfg.useTimer with
    | true =>
      refine ⟨rfl, rfl, rfl, rfl, ?_, ?_⟩
      · exact (Nat.le_add_right _ _).trans delayed.ge
      · exact delayed.trans_lt unwrapped
    | false => exact ⟨rfl, rfl, rfl, rfl, le_rfl, stamped⟩

theorem ends_heard {ts duration : Nat} {key : Char} {p q r : TonePacket}
    (waiting : Waiting ts duration h) {played : Nat} (longer : duration ≤ played)
    (toneP : IsTone p key true played ts) (toneQ : IsTone q key true played ts)
    (toneR : IsTone r key true played ts) (heededP : Heeded h p)
    (heededQ : Heeded (h.hear least p) q) (heededR : Heeded ((h.hear least p).hear least q) r)
    (counts : p.seq.toNat = 0 → q.seq.toNat ≠ 0) :
    Ended ts (((h.hear least p).hear least q).hear least r) ∧
      (((h.hear least p).hear least q).hear least r).digits =
        h.digits ++ [⟨key, max played least⟩] := by
  have end_of : ∀ {g : Hearing} {x : TonePacket}, IsTone x key true played ts →
      Waiting ts duration g → Heeded g x → x.seq.toNat ≠ 0 →
      Ended ts (g.hear least x) ∧
        (g.hear least x).digits = g.digits ++ [⟨key, max played least⟩] := by
    intro g x tone waiting heeded counts
    have ended := ended_of_waiting least waiting heeded tone.ts tone.ended
      (longer.trans tone.duration.ge) counts
    rwa [tone.key, tone.duration] at ended
  by_cases zero : p.seq.toNat = 0
  · obtain ⟨waits, same⟩ := waiting_skip least waiting heededP zero
    obtain ⟨ended, queued⟩ := end_of toneQ waits heededQ (counts zero)
    obtain ⟨stays, kept⟩ := ended_end least ended heededR toneR.ts toneR.ended
    exact ⟨stays, by rw [kept, queued, same]⟩
  · obtain ⟨ended, queued⟩ := end_of toneP waiting heededP zero
    obtain ⟨stays, kept⟩ := ended_end least ended heededQ toneQ.ts toneQ.ended
    obtain ⟨still, again⟩ := ended_end least stays heededR toneR.ts toneR.ended
    exact ⟨still, by rw [again, kept, queued]⟩

theorem Sends.silent {s' : RtpSend} (log : s'.log = s.log) (spoken : Spoken cfg least all s' h) :
    Sends cfg least all s s' h (ticksLeft cfg s'.dtmf) :=
  ⟨[], h, by rw [log, map_nil, append_nil], .refl _, spoken, rfl⟩

def Due (cfg : RtpConfig) (s : RtpSend) (samplecount : Nat) : Prop :=
  s.dtmf.outDigitDur = 0 → s.dtmf.dtmfQueue ≠ [] → (digitDelay cfg s samplecount).2 = true

section Call

variable (speaks : Speaks cfg) (spoken : Spoken cfg least all s h) (unwrapped : Unwrapped cfg s)
include speaks spoken unwrapped

theorem sends_middle (sounding : Sounding cfg least all s h digit steps)
    (playable : Playable cfg digit) {e : ManualEnv} (passes : e.Passes)
    (more : ¬digit.duration ≤ (steps + 1) * cfg.samplesPerInterval) :
    Sends cfg least all s
      (afterMiddle cfg (sendDigitPacket cfg false { s with dtmf := advanceDigit cfg s.dtmf } e))
      h (ticksLeft cfg s.dtmf - 1) := by
  have loaded := sounding.loaded spoken playable
  obtain ⟨inside, ⟨done, split, heard⟩, waiting, timed, behind⟩ := sounding
  have further := inside.next speaks playable more
  have advanced := advanceDigit_eq inside playable
  have queue : (advanceDigit cfg s.dtmf).dtmfQueue = s.dtmf.dtmfQueue := by rw [advanced]
  have ts : (advanceDigit cfg s.dtmf).timestampDtmf = s.dtmf.timestampDtmf := by rw [advanced]
  rw [decide_eq_false more] at loaded
  have room : s.lastWriteTs + cfg.samplesPerInterval < 2 ^ 32 :=
    lt_of_le_of_lt (Nat.add_le_add_left (le_max_left _ _) _) unwrapped
  obtain ⟨p, tone, emits, next⟩ := send_heeded speaks loaded (inside.short playable) playable.key
    timed (lt_of_le_of_lt behind spoken.stamped) least false passes
  have longer : steps * cfg.samplesPerInterval ≤ p.duration.toNat := by
    rw [tone.duration]
    exact Nat.mul_le_mul_right _ (Nat.le_succ _)
  obtain ⟨waits, same⟩ := waiting_update least waiting emits.heeded tone.ts tone.ended longer
  rw [tone.duration] at waits
  generalize sendDigitPacket cfg false { s with dtmf := advanceDigit cfg s.dtmf } e = s' at emits next ⊢
  have dtmf : s'.dtmf = advanceDigit cfg s.dtmf := emits.dtmf
  have last : (s'.lastWriteTs + cfg.samplesPerInterval) % 2 ^ 32 =
      s.lastWriteTs + cfg.samplesPerInterval := by
    rw [emits.lastWriteTs]
    exact Nat.mod_eq_of_lt room
  have after : afterMiddle cfg s' = { s' with
      lastWriteTs := s.lastWriteTs + cfg.samplesPerInterval
      dtmf := advanceDigit cfg s.dtmf } := by
    unfold afterMiddle
    simp only [speaks.noBug, Bool.false_eq_true, if_false, last, ← dtmf]
  rw [after]
  refine ⟨[p], h.hear least p, emits.log, .cons emits.heeded rfl (.refl _),
    ⟨next.header, next.small, ?_, room, next.number, .inr ⟨digit, steps + 1, ?_⟩⟩, ?_⟩
  · exact fun zero => spoken.written (Nat.eq_zero_of_add_eq_zero_right zero)
  · exact ⟨further, ⟨done, queue.symm ▸ split, same.trans heard⟩, ts.symm ▸ waits, ts.symm ▸ timed,
      ts.symm ▸ behind.trans (Nat.le_add_right _ _)⟩
  · rw [ticksLeft_inDigit further speaks playable, ticksLeft_inDigit inside speaks playable, queue]
    have goes := inside.goes
    omega

theorem sends_last (sounding : Sounding cfg least all s h digit steps)
    (playable : Playable cfg digit) {e : DigitEnv} (passes : e.Passes)
    (enough : digit.duration ≤ (steps + 1) * cfg.samplesPerInterval) (samplecount : Nat) :
    Sends cfg least all s
      (afterEnd cfg (run (sendDigitPacket cfg false) { s with dtmf := advanceDigit cfg s.dtmf }
        [e.first, e.second, e.third]) samplecount) h (ticksLeft cfg s.dtmf - 1) := by
  have loaded := sounding.loaded spoken playable
  obtain ⟨inside, ⟨done, split, heard⟩, waiting, timed, behind⟩ := sounding
  rw [decide_eq_true enough] at loaded
  have short := inside.short playable
  have stamped := lt_of_le_of_lt behind spoken.stamped
  have room : s.lastWriteTs + delaySamples cfg < 2 ^ 32 :=
    lt_of_le_of_lt (Nat.add_le_add_left (le_max_right _ _) _) unwrapped
  have last := (inside.last_iff speaks).mp enough
  have queue : (advanceDigit cfg s.dtmf).dtmfQueue = s.dtmf.dtmfQueue := by
    rw [advanceDigit_eq inside playable]
  rw [run_cons, run_cons, run_cons, run_nil]
  obtain ⟨p, toneP, emitsP, loadedP⟩ := send_heeded speaks loaded short playable.key timed stamped
    least false passes.first
  generalize sendDigitPacket cfg false { s with dtmf := advanceDigit cfg s.dtmf } e.first = s₁ at *
  obtain ⟨q, toneQ, emitsQ, loadedQ⟩ := send_heeded speaks loadedP short playable.key timed stamped
    least false passes.second
  generalize sendDigitPacket cfg false s₁ e.second = s₂ at *
  obtain ⟨r, toneR, emitsR, loadedR⟩ := send_heeded speaks loadedQ short playable.key timed stamped
    least false passes.third
  generalize sendDigitPacket cfg false s₂ e.third = s₃ at *
  have time : s₃.lastWriteTs = s.lastWriteTs :=
    emitsR.lastWriteTs.trans (emitsQ.lastWriteTs.trans emitsP.lastWriteTs)
  have dtmf : s₃.dtmf = advanceDigit cfg s.dtmf := emitsR.dtmf.trans (emitsQ.dtmf.trans emitsP.dtmf)
  have counts : p.seq.toNat = 0 → q.seq.toNat ≠ 0 := fun zero => by
    rw [emitsQ.number, ← emitsP.next, zero]
    decide
  have longer : steps * cfg.samplesPerInterval ≤ (steps + 1) * cfg.samplesPerInterval :=
    Nat.mul_le_mul_right _ (Nat.le_succ steps)
  obtain ⟨ended, queued⟩ := ends_heard waiting longer toneP toneQ toneR emitsP.heeded emitsQ.heeded
    emitsR.heeded counts
  obtain ⟨sendMsg, seq, log, rest, later, bounded⟩ :=
    @afterEnd_frame cfg s₃ (time.symm ▸ room) samplecount
  refine ⟨[p, q, r], _, ?_, .cons emitsP.heeded rfl (.cons emitsQ.heeded rfl
    (.cons emitsR.heeded rfl (.refl _))), ?_, ?_⟩
  · rw [log, emitsR.log, emitsQ.log, emitsP.log, append_assoc, append_assoc]
    rfl
  · refine ⟨sendMsg ▸ loadedR.header, seq ▸ loadedR.small, ?_, bounded, seq ▸ loadedR.number,
      .inl ⟨?_, ⟨done ++ [digit], ?_, ?_⟩, ended.flip, ended.closed, ?_⟩⟩
    · have written := spoken.written
      omega
    · rw [rest]
    · rw [rest, dtmf, split, append_assoc]
      exact congrArg (fun queue => done ++ digit :: queue) queue.symm
    · rw [queued, heard, map_append, last]
      rfl
    · rw [ended.lastTs]
      exact behind.trans (time ▸ later)
  · rw [ticksLeft_inDigit inside speaks playable, rest, ticksLeft_silent rfl, dtmf]
    rw [queue]
    omega

theorem sends_first (resting : Resting cfg least all s h) (playable : Playable cfg digit)
    {rest : List Dtmf} (queue : s.dtmf.dtmfQueue = digit :: rest) {e : ManualEnv} (passes : e.Passes)
    {s₀ : RtpSend} {queueDelay delay : Nat}
    (delayed : s₀ = { s with queueDelay := queueDelay, delaySamples := delay }) (m : Bool) :
    Sends cfg least all s (sendDigitPacket cfg m (beginDigit cfg
      { s₀ with sendingDtmf := true, dtmf := { s.dtmf with dtmfQueue := rest } } digit) e) h
      (ticksLeft cfg s.dtmf - 1) := by
  obtain ⟨silent, ⟨done, split, heard⟩, flip, closed, behind⟩ := resting
  have room : s.lastWriteTs + cfg.samplesPerInterval < 2 ^ 32 :=
    lt_of_le_of_lt (Nat.add_le_add_left (le_max_left _ _) _) unwrapped
  have samples := speaks.samples
  have short : cfg.samplesPerInterval ≤ 0xFFFF :=
    (Nat.le_mul_of_pos_left _ (Nat.zero_lt_of_lt (two_le_toneSteps _ _))).trans playable.short
  have waiting : Waiting (s.lastWriteTs + cfg.samplesPerInterval) 0 h :=
    ⟨flip, .inl ⟨closed, by omega⟩⟩
  subst delayed
  set s₁ := beginDigit cfg _ digit
  have ts : s₁.dtmf.timestampDtmf = s.lastWriteTs + cfg.samplesPerInterval :=
    Nat.mod_eq_of_lt room
  have time : s₁.lastWriteTs = s.lastWriteTs + cfg.samplesPerInterval := Nat.mod_eq_of_lt room
  have inside : InDigit cfg s₁.dtmf digit 1 := by
    refine ⟨rfl, (Nat.one_mul _).symm, (Nat.one_mul _).symm, ?_, le_rfl, two_le_toneSteps _ _⟩
    rw [Nat.one_mul]
    rfl
  have loaded : Loaded s₁ h digit.digit false cfg.samplesPerInterval
      (s.lastWriteTs + cfg.samplesPerInterval) :=
    ⟨spoken.header, spoken.small, Nat.one_mul cfg.samplesPerInterval ▸ inside.packet, ts,
      spoken.number⟩
  have left : s₁.dtmf.dtmfQueue = rest := rfl
  have logged : s₁.log = s.log := rfl
  obtain ⟨p, tone, emits, next⟩ := send_heeded speaks loaded short playable.key (by omega) room least
    m passes
  obtain ⟨waits, same⟩ := waiting_update least waiting emits.heeded tone.ts tone.ended (Nat.zero_le _)
  refine ⟨[p], h.hear least p, logged ▸ emits.log, .cons emits.heeded rfl (.refl _), ⟨next.header,
    next.small, ?_, ?_, next.number, .inr ⟨digit, 1, ?_, ⟨done, ?_, same.trans heard⟩, ?_, ?_, ?_⟩⟩,
    ?_⟩
  · rw [emits.lastWriteTs, time]
    omega
  · rw [emits.lastWriteTs, time]
    exact room
  · exact emits.dtmf ▸ inside
  · rw [emits.dtmf, left, split, queue]
  · rw [tone.duration] at waits
    rw [emits.dtmf, ts, Nat.one_mul]
    exact waits
  · rw [emits.dtmf, ts]
    omega
  · rw [emits.dtmf, ts, emits.lastWriteTs, time]
  · rw [emits.dtmf, ticksLeft_inDigit inside speaks playable, left, ticksLeft_silent silent, queue,
      map_cons, sum_cons]
    have goes := inside.goes
    omega

theorem tick_spoken (playable : ∀ digit ∈ all, Playable cfg digit) {e : DigitEnv} (passes : e.Passes)
    (samplecount : Nat) :
    ∃ left, Sends cfg least all s (do2833 cfg s samplecount e) h left ∧
      (Due cfg s samplecount → left = ticksLeft cfg s.dtmf - 1) := by
  unfold do2833
  rw [if_neg spoken.written]
  rcases spoken.phase with resting | ⟨digit, steps, sounding⟩
  · rw [if_neg (by rw [resting.silent]; decide)]
    cases queue : s.dtmf.dtmfQueue with
    | nil =>
      refine ⟨_, .silent rfl spoken, fun _ => ?_⟩
      rw [ticksLeft_silent resting.silent, queue]
      rfl
    | cons digit rest =>
      obtain ⟨done, split, heard⟩ := resting.heard
      have member : digit ∈ all := by
        rw [split, queue]
        exact mem_append_right _ mem_cons_self
      have code := toneKeys_code _ (playable digit member).key
      obtain ⟨queueDelay, delay, delayed⟩ := digitDelay_frame cfg s samplecount
      dsimp only
      split_ifs with due
      · exact absurd ‹_› code.2.1
      · exact absurd ‹_› code.2.2
      · exact ⟨_, sends_first speaks spoken unwrapped resting (playable digit member) queue passes.first
          delayed _, fun _ => rfl⟩
      · rw [delayed]
        refine ⟨_, .silent rfl { spoken with phase := .inl ?_ },
          fun goes => absurd (goes resting.silent ?_) due⟩
        · exact { resting with }
        · exact queue ▸ cons_ne_nil _ _
  · have plays := playable digit sounding.member
    have goes : 0 < s.dtmf.outDigitDur := by
      rw [sounding.inside.duration]
      exact plays.positive
    have advanced := advanceDigit_eq sounding.inside plays
    have sofar : (advanceDigit cfg s.dtmf).outDigitSofar = (steps + 1) * cfg.samplesPerInterval := by
      rw [advanced]
    have duration : (advanceDigit cfg s.dtmf).outDigitDur = digit.duration := by
      rw [advanced]
      exact sounding.inside.duration
    rw [if_pos goes]
    dsimp only
    rw [sofar, duration]
    refine ⟨_, ?_, fun _ => rfl⟩
    split_ifs with enough
    · exact sends_last speaks spoken unwrapped sounding plays passes enough samplecount
    · exact sends_middle speaks spoken unwrapped sounding plays passes.first enough

end Call

end Sending

end FreeSwitch
