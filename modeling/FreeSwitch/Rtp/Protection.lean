/-
**Protection of what is sent.**

On a session with `SECURE_SEND` set, which datagrams reach `switch_socket_sendto`, in terms of the
calls of `srtp_protect` on the way: every call but one whose packet ZRTP drops is followed by a
send, whatever its status.

* `failed_never_sent_iff`: the exact condition under which none is sent without protection.
-/

import FreeSwitch.Rtp.Write

namespace FreeSwitch

open List Run

/-! ### The calls of `srtp_protect` -/

variable (cfg : RtpConfig) (s : RtpSend)

/-- The call for a packet; there is none after a failure of `srtp_create`. -/
def protectCall (a : SendAnswers) : List SendAnswers :=
  if s.secureSendReset && !a.create then [] else [a]

/-- `rtp_common_write` gets to its send block. -/
def writes (args : WriteArgs) (e : WriteEnv) : Bool :=
  let prepared := prepareMsg cfg s args e
  e.ready &&
    match vadCheck cfg prepared.1 prepared.2 e.vad with
    | none => false
    | some (o, send) => send && mayWrite (resetFar prepared.1 o.msg.ts) o.msg.ts e.stillReady

/-- The calls of `rtp_common_write`. -/
def writeProtects (args : WriteArgs) (e : WriteEnv) : List SendAnswers :=
  if writes cfg s args e then protectCall s e.answers else []

/-- The calls of `switch_rtp_write_manual`. -/
def manualProtects (data : List UInt8) (e : ManualEnv) : List SendAnswers :=
  if e.goes data then protectCall s e.answers else []

def packetProtects (cfg : RtpConfig) (s : RtpSend) : List ManualEnv → List SendAnswers
  | [] => []
  | e :: es => manualProtects s s.dtmf.outDigitPacket e ++
      packetProtects cfg (sendDigitPacket cfg false s e) es

/-- The calls of `do_2833`. -/
def digitProtects (samplecount : Nat) (e : DigitEnv) : List SendAnswers :=
  if s.lastWriteTs = 0 then []
  else if 0 < s.dtmf.outDigitDur then
    let s := { s with dtmf := advanceDigit cfg s.dtmf }
    packetProtects cfg s
      (if s.dtmf.outDigitSofar ≥ s.dtmf.outDigitDur then [e.first, e.second, e.third]
        else [e.first])
  else
    match s.dtmf.dtmfQueue with
    | [] => []
    | digit :: _ =>
      if (digitDelay cfg s samplecount).2 && digit.digit != 'w' && digit.digit != 'W' then
        manualProtects s (beginDigit cfg s digit).dtmf.outDigitPacket e.first
      else []

/-- The calls of `switch_rtp_write_frame`. -/
def frameProtects (frame : Frame) (e : FrameEnv) : List SendAnswers :=
  if !e.ready || !e.remoteAddr || proxied cfg frame || frame.cng && cfg.cngPt == 0 then []
  else
    let fwd := s.rawWrite && frame.rawRtp
    let s := checkGenerated cfg s frame
    if frame.rtpHeader then
      let after := writeHeader cfg s frame e.manual
      manualProtects s frame.data e.manual ++
        writeProtects cfg after (frameArgs cfg after frame fwd) e.write
    else writeProtects cfg s (frameArgs cfg s frame fwd) e.write

/-- **The calls of `srtp_protect` that a step makes.** -/
def protects (s : RtpSend) : SendOp → List SendAnswers
  | .write args env => writeProtects cfg s args env
  | .manual args env => manualProtects s args.data env
  | .noise samplecount env =>
    if noiseDue cfg s samplecount then manualProtects s noiseData env else []
  | .digits samplecount env => digitProtects cfg s samplecount env
  | .frame frame env => frameProtects cfg s frame env
  | .queueDigit _ _ _ => []
  | .newKey => []

/-! ### What is sent -/

def SendAnswers.dropped (a : SendAnswers) : Bool :=
  !cfg.proxyMedia && a.zrtp == .drop

def callStats (calls : List SendAnswers) : List (Option Nat) :=
  (calls.filter fun a => !a.dropped cfg).map fun a => some a.stat

def sentStats (s : RtpSend) : List (Option Nat) := s.log.map Sent.stat

/-- A frame that is passed on as it is, without a call of `srtp_protect`. -/
def framePasses (frame : Frame) (e : FrameEnv) : List (Option Nat) :=
  if e.ready && e.remoteAddr && (frame.proxyPacket || frame.udptlPacket) then [none] else []

def passedOn : SendOp → List (Option Nat)
  | .frame frame env => framePasses frame env
  | _ => []

structure Quiet (s s' : RtpSend) : Prop where
  log : s'.log = s.log
  reset : s'.secureSendReset = s.secureSendReset

section Sent

variable {cfg : RtpConfig} {s s' : RtpSend}

theorem Quiet.trans {s'' : RtpSend} (first : Quiet s s') (second : Quiet s' s'') : Quiet s s'' :=
  ⟨second.log.trans first.log, second.reset.trans first.reset⟩

theorem Quiet.stats (quiet : Quiet s s') : sentStats s' = sentStats s :=
  congrArg (List.map Sent.stat) quiet.log

theorem Quiet.protectCall (quiet : Quiet s s') (a : SendAnswers) :
    protectCall s' a = protectCall s a := by
  unfold FreeSwitch.protectCall
  rw [quiet.reset]

theorem Quiet.manualProtects (quiet : Quiet s s') (data : List UInt8) (e : ManualEnv) :
    manualProtects s' data e = manualProtects s data e := by
  unfold FreeSwitch.manualProtects
  rw [quiet.protectCall]

variable (cfg s)

theorem keep_quiet (own : Bool) (msg : RtpMsg) : Quiet s (s.keep own msg) := by
  unfold RtpSend.keep
  split <;> exact ⟨rfl, rfl⟩

theorem getNextWriteTs_quiet (timestamp samplecount : Nat) :
    Quiet s (getNextWriteTs cfg s timestamp samplecount).1 := by
  unfold getNextWriteTs
  simp only
  split_ifs <;> exact ⟨rfl, rfl⟩

theorem takeMsg_quiet (args : WriteArgs) (samplecount : Nat) :
    Quiet s (takeMsg cfg s args samplecount).1 := by
  unfold takeMsg
  split
  · exact ⟨rfl, rfl⟩
  · exact getNextWriteTs_quiet cfg s _ _

theorem markWrite_quiet (payload : Nat) (m : Bool) (e : WriteEnv) :
    Quiet s (markWrite cfg s payload m e).1 := by
  unfold markWrite
  split <;> exact ⟨rfl, rfl⟩

theorem stampMsg_quiet (o : Outgoing) (m : Bool) (newSsrc : Nat) :
    Quiet s (stampMsg cfg s o m newSsrc).1 := by
  unfold stampMsg
  simp only
  split_ifs <;> exact ⟨rfl, rfl⟩

theorem prepareMsg_quiet (args : WriteArgs) (e : WriteEnv) :
    Quiet s (prepareMsg cfg s args e).1 :=
  ((takeMsg_quiet cfg s args _).trans (markWrite_quiet cfg _ _ _ e)).trans
    (stampMsg_quiet cfg _ _ _ _)

theorem setDtmfDelay_quiet (samplecount ms maxMs : Nat) :
    Quiet s (setDtmfDelay cfg s samplecount ms maxMs) := by
  unfold setDtmfDelay
  simp only
  split <;> exact ⟨rfl, rfl⟩

theorem digitDelay_quiet (samplecount : Nat) :
    Quiet s (digitDelay cfg s samplecount).1 := by
  unfold digitDelay
  split_ifs <;> exact ⟨rfl, rfl⟩

theorem checkGenerated_quiet (frame : Frame) :
    Quiet s (checkGenerated cfg s frame) := by
  unfold checkGenerated
  split <;> exact ⟨rfl, rfl⟩

theorem afterEnd_quiet (samplecount : Nat) :
    Quiet s (afterEnd cfg s samplecount) := by
  unfold afterEnd
  simp only
  split
  · exact ⟨rfl, rfl⟩
  · exact ⟨(setDtmfDelay_quiet cfg _ _ _ _).log, (setDtmfDelay_quiet cfg _ _ _ _).reset⟩

theorem callStats_append (calls others : List SendAnswers) :
    callStats cfg (calls ++ others) = callStats cfg calls ++ callStats cfg others := by
  unfold callStats
  rw [filter_append, map_append]

theorem socketSendto_stats (msg : RtpMsg) (bytes : Nat) (stat wrote : Option Nat) :
    sentStats (socketSendto s msg bytes stat wrote).1 = sentStats s ++ [stat] := by
  cases wrote <;> exact map_append

theorem zrtpProcess_eq_none (msg : RtpMsg) (bytes : Nat) (a : SendAnswers) :
    zrtpProcess cfg msg bytes a.zrtp = none ↔ a.dropped cfg = true := by
  unfold zrtpProcess SendAnswers.dropped
  cases cfg.proxyMedia <;> cases a.zrtp <;> simp

theorem proxyFrame_stats (frame : Frame) (wrote : Option Nat) :
    sentStats (proxyFrame cfg s frame wrote).1 =
      sentStats s ++ if frame.proxyPacket || frame.udptlPacket then [none] else [] := by
  unfold proxyFrame
  cases frame.proxyPacket <;> cases frame.udptlPacket <;> cases cfg.udptl <;> cases wrote <;>
    simp [sentStats]

theorem queueRfc2833_stats (ready room : Bool) (dtmf : Dtmf) :
    sentStats (queueRfc2833 cfg s ready room dtmf) = sentStats s := by
  unfold queueRfc2833
  split <;> rfl

variable {cfg s} (secure : cfg.secureSend = true) (s : RtpSend)

include secure

theorem transmit_stats (msg : RtpMsg) (bytes : Nat) (a : SendAnswers) :
    sentStats (transmit cfg s msg bytes a).1 = sentStats s ++ callStats cfg (protectCall s a) := by
  unfold transmit srtpProtect protectCall callStats
  rw [if_pos secure]
  by_cases fails : (s.secureSendReset && !a.create) = true
  · rw [if_pos fails, if_pos fails]
    exact (append_nil _).symm
  · rw [if_neg fails, if_neg fails]
    simp only
    split
    next dropped =>
      rw [zrtpProcess_eq_none] at dropped
      simp [dropped, sentStats]
    next msg' bytes' goes =>
      have kept : a.dropped cfg = false := by
        rw [← Bool.not_eq_true, ← zrtpProcess_eq_none, goes]
        exact Option.some_ne_none _
      rw [socketSendto_stats]
      simp [kept, sentStats]

theorem sendMedia_stats (o : Outgoing) (e : WriteEnv) : sentStats (sendMedia cfg s o e).1 =
      sentStats s ++ callStats cfg (protectCall s e.answers) := by
  have sent := transmit_stats secure { s with seq := (s.seq + 1) % 65536 }
    (swapOutgoing cfg (o.msg.setSeq ((s.seq + 1) % 65536)) o.datalen) o.bytes e.answers
  unfold sendMedia
  simp only
  split
  next ends =>
    rw [ends] at sent
    exact (keep_quiet _ _ _).stats.trans sent
  next ends =>
    rw [ends] at sent
    exact (keep_quiet _ _ _).stats.trans sent

theorem rtpCommonWrite_stats (args : WriteArgs) (e : WriteEnv) :
    sentStats (rtpCommonWrite cfg s args e).1 =
      sentStats s ++ callStats cfg (writeProtects cfg s args e) := by
  have prepared := prepareMsg_quiet cfg s args e
  have nothing : ∀ own msg, sentStats ((prepareMsg cfg s args e).1.keep own msg) =
      sentStats s ++ callStats cfg [] := fun own msg =>
    (prepared.trans (keep_quiet _ own msg)).stats.trans (append_nil _).symm
  unfold rtpCommonWrite writeProtects writes
  by_cases ready : e.ready = true
  · simp only [ready, Bool.not_true, Bool.false_eq_true, if_false, Bool.true_and]
    cases vadCheck cfg (prepareMsg cfg s args e).1 (prepareMsg cfg s args e).2 e.vad with
    | none => exact nothing _ _
    | some judged =>
      simp only
      have far : Quiet s (resetFar (prepareMsg cfg s args e).1 judged.1.msg.ts) :=
        prepared.trans ⟨rfl, rfl⟩
      split_ifs with goes
      · rw [sendMedia_stats secure, far.stats, far.protectCall]
      · exact (far.trans (keep_quiet _ _ _)).stats.trans (append_nil _).symm
  · simp only [ready, Bool.not_false, Bool.false_and, Bool.false_eq_true, if_true, if_false]
    exact (append_nil _).symm

theorem rtpWriteManual_stats (args : ManualArgs) (e : ManualEnv) :
    sentStats (rtpWriteManual cfg s args e).1 =
      sentStats s ++ callStats cfg (manualProtects s args.data e) := by
  have sent := transmit_stats secure { s with seq := (s.seq + 1) % 65536 }
    (manualMsg s args ((s.seq + 1) % 65536)) (rtpHeaderLen + args.data.length) e.answers
  unfold rtpWriteManual manualProtects
  by_cases goes : e.goes args.data = true
  · rw [if_pos goes, if_pos goes]
    simp only
    split
    next ends =>
      rw [ends] at sent
      exact sent
    next ends =>
      rw [ends] at sent
      simp only
      split <;> exact sent
  · rw [if_neg goes, if_neg goes]
    exact (append_nil _).symm

theorem sendDigitPacket_stats (m : Bool) (s : RtpSend)
    (e : ManualEnv) : sentStats (sendDigitPacket cfg m s e) =
      sentStats s ++ callStats cfg (manualProtects s s.dtmf.outDigitPacket e) :=
  rtpWriteManual_stats secure s _ e

theorem packets_stats (es : List ManualEnv) (s : RtpSend) :
    sentStats (run (sendDigitPacket cfg false) s es) =
      sentStats s ++ callStats cfg (packetProtects cfg s es) := by
  induction es generalizing s with
  | nil => exact (append_nil _).symm
  | cons e es ih =>
    rw [run_cons, ih, sendDigitPacket_stats secure, packetProtects, callStats_append,
      append_assoc]

theorem do2833_stats (samplecount : Nat) (e : DigitEnv) : sentStats (do2833 cfg s samplecount e) =
      sentStats s ++ callStats cfg (digitProtects cfg s samplecount e) := by
  have nothing : sentStats s = sentStats s ++ callStats cfg [] := (append_nil _).symm
  unfold do2833 digitProtects
  by_cases idle : s.lastWriteTs = 0
  · rw [if_pos idle, if_pos idle]
    exact nothing
  rw [if_neg idle, if_neg idle]
  by_cases playing : 0 < s.dtmf.outDigitDur
  · rw [if_pos playing, if_pos playing]
    simp only
    split_ifs with ended
    · exact (afterEnd_quiet cfg _ _).stats.trans (packets_stats secure [e.first, e.second, e.third] _)
    · exact packets_stats secure [e.first] { s with dtmf := advanceDigit cfg s.dtmf }
  rw [if_neg playing, if_neg playing]
  cases s.dtmf.dtmfQueue with
  | nil => exact nothing
  | cons digit rest =>
    have delayed := digitDelay_quiet cfg s samplecount
    by_cases due : (digitDelay cfg s samplecount).2 = true
    · have started : Quiet s { (digitDelay cfg s samplecount).1 with
          sendingDtmf := true, dtmf := { s.dtmf with dtmfQueue := rest } } :=
        delayed.trans ⟨rfl, rfl⟩
      simp only [due, if_true, Bool.true_and]
      by_cases pause : digit.digit = 'w' ∨ digit.digit = 'W'
      · rcases pause with short | long
        · simpa [short] using (started.trans (setDtmfDelay_quiet cfg _ _ _ _)).stats.trans nothing
        · simpa [long] using (started.trans (setDtmfDelay_quiet cfg _ _ _ _)).stats.trans nothing
      · rw [not_or] at pause
        have begun : ∀ s', Quiet s s' → Quiet s (beginDigit cfg s' digit) :=
          fun _ quiet => ⟨quiet.log, quiet.reset⟩
        rw [if_neg pause.1, if_neg pause.2, if_pos (by simp [pause.1, pause.2]),
          sendDigitPacket_stats secure, (begun _ started).stats, (begun _ started).manualProtects]
        rfl
    · simp only [due, Bool.false_and, Bool.false_eq_true, if_false]
      exact delayed.stats.trans nothing

theorem autoCng_stats (samplecount : Nat) (e : ManualEnv) :
    sentStats (autoCng cfg s samplecount e) = sentStats s ++ callStats cfg
      (if noiseDue cfg s samplecount then manualProtects s noiseData e else []) := by
  have next := getNextWriteTs_quiet cfg { s with cn := (s.cn + 1) % 256 } 0 samplecount
  have written : ∀ s' args, Quiet s s' → args.data = noiseData →
      sentStats (rtpWriteManual cfg s' args e).1 =
        sentStats s ++ callStats cfg (manualProtects s noiseData e) := by
    intro s' args quiet data
    rw [rtpWriteManual_stats secure, quiet.stats, quiet.manualProtects, data]
  unfold autoCng
  split_ifs with due timer
  · exact written _ _ ⟨next.log, next.reset⟩ rfl
  · exact written _ _ ⟨next.log, next.reset⟩ rfl
  · exact (append_nil _).symm

theorem writeHeader_stats (frame : Frame) (e : ManualEnv) : sentStats (writeHeader cfg s frame e) =
      sentStats s ++ callStats cfg (manualProtects s frame.data e) :=
  rtpWriteManual_stats secure s _ e

theorem rtpWriteFrame_stats (frame : Frame) (e : FrameEnv) :
    sentStats (rtpWriteFrame cfg s frame e).1 =
      sentStats s ++ (framePasses frame e ++ callStats cfg (frameProtects cfg s frame e)) := by
  have quiet := checkGenerated_quiet cfg s frame
  unfold rtpWriteFrame frameProtects framePasses
  by_cases off : (!e.ready || !e.remoteAddr) = true
  · have passes : (e.ready && e.remoteAddr) = false := by
      rw [← Bool.not_eq_true', Bool.not_and]
      exact off
    simp only [off, passes, Bool.true_or, Bool.false_and, Bool.false_eq_true, if_true, if_false]
    exact (append_nil _).symm
  have on : (e.ready && e.remoteAddr) = true := by simpa using off
  simp only [off, on, Bool.false_or, Bool.true_and, Bool.false_eq_true, if_false]
  by_cases proxy : proxied cfg frame = true
  · simp only [proxy, Bool.true_or, if_true]
    rw [proxyFrame_stats]
    exact congrArg _ (append_nil _).symm
  have plain : (frame.proxyPacket || frame.udptlPacket) = false := by
    simp only [proxied, Bool.or_eq_true, not_or, Bool.not_eq_true] at proxy
    simp [proxy]
  simp only [proxy, plain, Bool.false_or, Bool.false_eq_true, if_false, nil_append]
  split_ifs with silent header
  · exact quiet.stats.trans (append_nil _).symm
  · rw [rtpCommonWrite_stats secure, writeHeader_stats secure, quiet.stats, callStats_append,
      append_assoc]
  · rw [rtpCommonWrite_stats secure, quiet.stats]

end Sent

/-- **What a step sends**: frames that are passed on, and the packets of the calls of `srtp_protect`
that ZRTP does not drop. -/
theorem sendStep_stats {cfg : RtpConfig} (secure : cfg.secureSend = true) (s : RtpSend)
    (op : SendOp) :
    sentStats (sendStep cfg s op) =
      sentStats s ++ (passedOn op ++ callStats cfg (protects cfg s op)) := by
  cases op with
  | write args env => exact rtpCommonWrite_stats secure s args env
  | manual args env => exact rtpWriteManual_stats secure s args env
  | noise samplecount env => exact autoCng_stats secure s samplecount env
  | digits samplecount env => exact do2833_stats secure s samplecount env
  | frame frame env => exact rtpWriteFrame_stats secure s frame env
  | queueDigit ready room dtmf =>
    exact (queueRfc2833_stats cfg s ready room dtmf).trans (append_nil _).symm
  | newKey => exact (append_nil _).symm

/-! ### Runs -/

/-- No datagram was sent whose call of `srtp_protect` failed. -/
def Unfailed (s : RtpSend) : Prop := ∀ x ∈ s.log, ∀ stat, x.stat = some stat → stat = 0

theorem unfailed_iff_stats (s : RtpSend) :
    Unfailed s ↔ ∀ stat, some stat ∈ sentStats s → stat = 0 := by
  unfold Unfailed sentStats
  constructor
  · intro unfailed stat member
    obtain ⟨x, sent, is⟩ := mem_map.mp member
    exact unfailed x sent stat is
  · intro unfailed x sent stat is
    exact unfailed stat (mem_map.mpr ⟨x, sent, is⟩)

def SendAnswers.Safe (cfg : RtpConfig) (a : SendAnswers) : Prop :=
  a.stat = 0 ∨ cfg.proxyMedia = false ∧ a.zrtp = .drop

instance (cfg : RtpConfig) (a : SendAnswers) : Decidable (a.Safe cfg) :=
  inferInstanceAs (Decidable (_ ∨ _ ∧ _))

theorem dropped_iff (cfg : RtpConfig) (a : SendAnswers) :
    a.dropped cfg = true ↔ cfg.proxyMedia = false ∧ a.zrtp = .drop := by
  simp [SendAnswers.dropped]

theorem callStats_unfailed (cfg : RtpConfig) (calls : List SendAnswers) :
    (∀ stat, some stat ∈ callStats cfg calls → stat = 0) ↔ ∀ a ∈ calls, a.Safe cfg := by
  unfold callStats SendAnswers.Safe
  constructor
  · intro unfailed a member
    by_cases dropped : a.dropped cfg = true
    · exact .inr ((dropped_iff cfg a).mp dropped)
    · refine .inl (unfailed a.stat (mem_map.mpr ⟨a, mem_filter.mpr ⟨member, ?_⟩, rfl⟩))
      simpa using dropped
  · intro safe stat member
    obtain ⟨a, called, is⟩ := mem_map.mp member
    obtain ⟨called, kept⟩ := mem_filter.mp called
    obtain rfl := Option.some.inj is
    refine (safe a called).resolve_right fun drop => ?_
    rw [(dropped_iff cfg a).mpr drop] at kept
    cases kept

theorem sendStep_unfailed {cfg : RtpConfig} (secure : cfg.secureSend = true) (s : RtpSend)
    (op : SendOp) :
    Unfailed (sendStep cfg s op) ↔ Unfailed s ∧ ∀ a ∈ protects cfg s op, a.Safe cfg := by
  have passed : ∀ stat, some stat ∉ passedOn op := by
    intro stat member
    cases op <;> simp [passedOn, framePasses] at member
  rw [unfailed_iff_stats, unfailed_iff_stats, sendStep_stats secure, ← callStats_unfailed,
    ← forall_and]
  refine forall_congr' fun stat => ?_
  rw [mem_append, mem_append, or_iff_right (passed stat), or_imp]

def sendStart (session : RtpSend) : RtpSend := { session with log := [] }

/-- **When sending is fail closed.** In a run on a session with `SECURE_SEND` set, no datagram is
given to the socket whose call of `srtp_protect` failed, if and only if every call of it that the
steps make succeeds, or is on a packet that ZRTP drops. -/
theorem failed_never_sent_iff {cfg : RtpConfig} (secure : cfg.secureSend = true) (session : RtpSend)
    (ops : List SendOp) :
    (∀ x ∈ (run (sendStep cfg) (sendStart session) ops).log,
        ∀ stat, x.stat = some stat → stat = 0) ↔
      Along (sendStep cfg) (fun s op => ∀ a ∈ protects cfg s op, a.Safe cfg) (sendStart session)
        ops := by
  have start : Unfailed (sendStart session) := fun x member => nomatch member
  exact (run_iff_along (sendStep_unfailed secure) _ ops).trans (and_iff_right start)

/-- A session with `SECURE_SEND` set. -/
def sealedConfig : RtpConfig :=
  { (default : RtpConfig) with
    te := 101, cngPt := 13, samplesPerInterval := 160, samplesPerSecond := 8000
    secureSend := true }

def sealedSession : RtpSend :=
  { (default : RtpSend) with sendMsg := ⟨fun i => if i = 0 then 0x80 else 0, none⟩ }

/-- Two calls where `srtp_protect` leaves the packet, with this status: media of two bytes, and a
packet of a digit. -/
def mediaAndDigit (stat : Nat) : List SendOp :=
  let answers (bytes : Nat) : SendAnswers := ⟨true, stat, bytes, [], .off, some bytes⟩
  [.write ⟨.inr [7, 9], 0, 0, false⟩ ⟨true, true, 0, 0, 0, 0, none, answers 14⟩,
    .manual ⟨[5, 13, 0, 160], true, 101, 320, false⟩ ⟨true, true, answers 16⟩]

/-- Both are sent when `srtp_protect` succeeds. -/
theorem failed_never_sent_iff_mediaAndDigit :
    let log := (run (sendStep sealedConfig) (sendStart sealedSession) (mediaAndDigit 0)).log
    log.length = 2 ∧ ∀ x ∈ log, ∀ stat, x.stat = some stat → stat = 0 := by
  refine ⟨by decide +kernel, (failed_never_sent_iff rfl sealedSession _).mpr ⟨?_, ?_, trivial⟩⟩ <;>
    decide +kernel

/-- Both are sent in the clear when `srtp_protect` fails. -/
theorem failed_packets_sent :
    (run (sendStep sealedConfig) (sendStart sealedSession) (mediaAndDigit 1)).log =
      [⟨[0x80, 0x80, 0, 1, 0, 0, 0, 160, 0, 0, 0, 0, 7, 9], some 1, some 14⟩,
        ⟨[0x80, 0xE5, 0, 2, 0, 0, 1, 64, 0, 0, 0, 0, 5, 13, 0, 160], some 1, some 16⟩] := by
  decide +kernel

end FreeSwitch
