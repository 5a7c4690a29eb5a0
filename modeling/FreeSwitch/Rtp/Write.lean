/-
**Sending RTP.**

`rtp_common_write`, `switch_rtp_write_manual`, `switch_rtp_write_frame`, `do_2833` and the comfort
noise of `check_srtp_and_ice`. What `srtp_create`, `srtp_protect`, ZRTP and the socket answer, the
clocks and the verdict of the voice detection are inputs of a call.
-/

import FreeSwitch.Rtp.Rfc2833
import FreeSwitch.Lib.Run

namespace FreeSwitch

open Run

/-! ### The sending half of a session -/

/-- The outgoing half of `struct switch_rtp_rfc2833_data`. -/
structure DtmfOut where
  outDigit : Char
  outDigitPacket : List UInt8
  outDigitSofar : Nat
  outDigitSubSofar : Nat
  outDigitDur : Nat
  timestampDtmf : Nat
  dtmfQueue : List Dtmf

/-- `stats.outbound`. -/
structure OutboundStats where
  rawBytes : Nat
  packetCount : Nat
  mediaPacketCount : Nat
  mediaBytes : Nat
  cngPacketCount : Nat
  dtmfPacketCount : Nat

/-- A datagram given to `switch_socket_sendto`: the status of `srtp_protect`, if called on it, and
the length written, if sending succeeds. -/
structure Sent where
  data : List UInt8
  stat : Option Nat
  wrote : Option Nat
  deriving DecidableEq

/-- The fields of `struct switch_rtp` for sending, with the datagrams so far. -/
structure RtpSend where
  sendMsg : RtpMsg
  writeMsg : RtpMsg
  /-- The receive buffer, whose payload type `GOOGLEHACK` sets. -/
  recvMsg : RtpMsg
  seq : Nat
  ts : Nat
  lastWriteTs : Nat
  writeReset : Bool
  secureSendReset : Bool
  rawWrite : Bool
  sendingDtmf : Bool
  needMark : Bool
  cn : Nat
  ssrc : Nat
  queueDelay : Nat
  delaySamples : Nat
  nextWriteSamplecount : Nat
  maxNextWriteSamplecount : Nat
  lastWriteSamplecount : Nat
  lastWriteTimestamp : Int
  dtmf : DtmfOut
  stats : OutboundStats
  log : List Sent

instance : Inhabited RtpSend :=
  ⟨⟨⟨fun _ => 0, none⟩, ⟨fun _ => 0, none⟩, ⟨fun _ => 0, none⟩, 0, 0, 0, false, false, false, false,
    false, 0, 0, 0, 0, 0, 0, 0, 0, ⟨'\x00', [0, 0, 0, 0], 0, 0, 0, 0, []⟩, ⟨0, 0, 0, 0, 0, 0⟩, []⟩⟩

/-- ZRTP is off, drops the packet, or leaves a length and the bytes behind the header, whatever its
status. -/
inductive ZrtpSend
  | off
  | drop
  | leaves (bytes : Nat) (body : List UInt8)
  deriving DecidableEq

structure SendAnswers where
  /-- `srtp_create` succeeds. -/
  create : Bool
  /-- The status of `srtp_protect`, `0` if it succeeds. -/
  stat : Nat
  sbytes : Nat
  cipher : List UInt8
  zrtp : ZrtpSend
  /-- The length that `switch_socket_sendto` writes, if it succeeds. -/
  wrote : Option Nat

/-! ### The end of both writing functions -/

/-- How a packet leaves: not at all or with an error, where the call returns this; or written. -/
inductive Transmit
  | stopped (ret : Int)
  | wrote (bytes : Nat)

variable (cfg : RtpConfig) (s : RtpSend) (msg : RtpMsg)

/-- The SRTP step: packet, length and status. A status other than `0` is only logged. -/
def srtpProtect (bytes : Nat) (a : SendAnswers) : RtpSend × Option (RtpMsg × Nat × Option Nat) :=
  if cfg.secureSend then
    if s.secureSendReset && !a.create then ({ s with secureSendReset := false }, none)
    else ({ s with secureSendReset := false },
      some (msg.put rtpHeaderLen a.cipher, a.sbytes, some a.stat))
  else (s, some (msg, bytes, none))

def zrtpProcess (bytes : Nat) (zrtp : ZrtpSend) : Option (RtpMsg × Nat) :=
  if cfg.proxyMedia then some (msg, bytes)
  else
    match zrtp with
    | .off => some (msg, bytes)
    | .drop => none
    | .leaves bytes body => some (msg.put rtpHeaderLen body, bytes)

/-- `switch_socket_sendto`, which gives the number back if it fails. -/
def socketSendto (bytes : Nat) (stat wrote : Option Nat) : RtpSend × Transmit :=
  let s := { s with log := s.log ++ [⟨msg.mem.slice 0 bytes, stat, wrote⟩] }
  match wrote with
  | none => ({ s with seq := (s.seq + 65535) % 65536 }, .stopped (-1))
  | some bytes => (s, .wrote bytes)

def transmit (bytes : Nat) (a : SendAnswers) : RtpSend × RtpMsg × Transmit :=
  match srtpProtect cfg s msg bytes a with
  | (s, none) => (s, msg, .stopped (-1))
  | (s, some (msg, bytes, stat)) =>
    match zrtpProcess cfg msg bytes a.zrtp with
    | none => (s, msg, .stopped bytes)
    | some (msg, bytes) =>
      let sent := socketSendto s msg bytes stat a.wrote
      (sent.1, msg, sent.2)

/-! ### `rtp_common_write` -/

def sub32 (a b : Nat) : Nat := (a + 2 ^ 32 - b % 2 ^ 32) % 2 ^ 32

/-- `abs` of such a difference, as a signed number. -/
def absDiff32 (a b : Nat) : Nat := if sub32 a b < 2 ^ 31 then sub32 a b else 2 ^ 32 - sub32 a b

/-- The arguments of `rtp_common_write`: a whole packet of a length, or a payload; the payload type,
the timestamp, and whether `SFF_RFC2833` is set. -/
structure WriteArgs where
  packet : RtpMsg × Nat ⊕ List UInt8
  payload : Nat
  timestamp : Nat
  rfc2833 : Bool

/-- What a call finds. Voice detection (`vad`) says that the packet is to be sent, and that talking
starts; or that it cannot be decoded. -/
structure WriteEnv where
  ready : Bool
  stillReady : Bool
  samplecount : Nat
  now : Int
  sentAt : Int
  newSsrc : Nat
  vad : Option (Bool × Bool)
  answers : SendAnswers

/-- A packet on its way; `own` says that it is the session's `send_msg`. -/
structure Outgoing where
  own : Bool
  msg : RtpMsg
  datalen : Nat
  bytes : Nat
  payload : Nat

def RtpSend.keep (own : Bool) (msg : RtpMsg) : RtpSend :=
  if own then { s with sendMsg := msg } else s

/-- **`get_next_write_ts`**, with the marker. -/
def getNextWriteTs (timestamp samplecount : Nat) : RtpSend × Bool :=
  -- a timestamp that is not above the last one is moved behind it
  let behind ts := if ts ≤ s.lastWriteTs ∧ 0 < ts then
    (s.lastWriteTs + cfg.samplesPerInterval) % 2 ^ 32 else ts
  if cfg.sendLinearTimestamps then
    ({ s with ts := behind ((s.ts + cfg.samplesPerInterval) % 2 ^ 32) }, false)
  else if timestamp ≠ 0 then
    ({ s with ts := timestamp }, decide (timestamp ≤ s.lastWriteTs) && !cfg.neverSendMarker)
  else if cfg.useTimer then ({ s with ts := behind samplecount }, false)
  else ({ s with ts := behind ((s.ts + cfg.samplesPerInterval) % 2 ^ 32) }, false)

def takeMsg (args : WriteArgs) (samplecount : Nat) : RtpSend × Outgoing × Bool :=
  match args.packet with
  | .inl (msg, datalen) =>
    (s, ⟨false, if args.rfc2833 then msg.setPt cfg.te else msg,
      if datalen > rtpHeaderLen then datalen - rtpHeaderLen else datalen, datalen, args.payload⟩,
      msg.m)
  | .inr data =>
    let payload := if args.rfc2833 then cfg.te else args.payload
    let next := getNextWriteTs cfg s args.timestamp samplecount
    let msg := ((s.sendMsg.setPt payload).setTs next.1.ts).put rtpHeaderLen data
    (next.1, ⟨true, msg, data.length, data.length + rtpHeaderLen, payload⟩, next.2)

def markWrite (payload : Nat) (m : Bool) (e : WriteEnv) : RtpSend × Bool :=
  if cfg.neverSendMarker then (s, false)
  else
    let jumps := !s.writeReset && s.ts > (s.lastWriteTs + cfg.samplesPerInterval * 10) % 2 ^ 32 ||
      s.ts == cfg.samplesPerInterval
    let idle := if cfg.useTimer then
        sub32 e.samplecount s.lastWriteSamplecount > cfg.samplesPerInterval * 10 % 2 ^ 32
      else ((e.now - s.lastWriteTimestamp) % 2 ^ 32).toNat > cfg.msPerPacket * 10 % 2 ^ 32
    let afterCn := s.cn != 0 && payload != cfg.cngPt
    let needed := s.needMark && !s.sendingDtmf
    ({ s with cn := if afterCn then 0 else s.cn, needMark := s.needMark && !needed },
      m || jumps || idle || afterCn || needed)

def stampMsg (o : Outgoing) (m : Bool) (newSsrc : Nat) : RtpSend × Outgoing :=
  let s := if m then { s with writeReset := true, ts := 0 } else s
  let s := if m && !cfg.secureSend && cfg.changeSsrcOnMarker &&
      (s.writeReset || s.ts ≤ s.lastWriteTs && s.lastWriteTs > 0) then
    { s with ssrc := newSsrc, sendMsg := s.sendMsg.setSsrc newSsrc } else s
  let msg := if cfg.video || cfg.udptl then o.msg else o.msg.setM (m && !cfg.neverSendMarker)
  let o := { o with msg := msg.setSsrc s.ssrc }
  let sendPt := if o.own then o.msg.pt else s.sendMsg.pt
  (if cfg.googlehack && sendPt == 97 then { s with recvMsg := s.recvMsg.setPt 102 } else s, o)

def vadCheck (o : Outgoing) (vad : Option (Bool × Bool)) : Option (Outgoing × Bool) :=
  if cfg.vadPt = some s.recvMsg.pt then
    vad.map fun (send, talks) =>
      ({ o with msg := if talks && !cfg.neverSendMarker then o.msg.setM true else o.msg }, send)
  else some (o, true)

def resetFar (thisTs : Nat) : RtpSend :=
  { s with writeReset := s.writeReset || absDiff32 s.lastWriteTs thisTs > 16000 }

def mayWrite (thisTs : Nat) (stillReady : Bool) : Bool :=
  stillReady && !s.sendingDtmf && thisTs != 0 && (s.writeReset || s.lastWriteTs ≤ thisTs)

def swapOutgoing (datalen : Nat) : RtpMsg :=
  if cfg.byteswap && msg.pt == cfg.payload then
    { msg with mem := swapLinear msg.mem rtpHeaderLen datalen }
  else msg

/-- A `switch_size_t` and what an `int` adds to it: an error adds its two's complement. -/
def addSize (count : Nat) (ret : Int) : Nat := ((count + ret) % 2 ^ 64).toNat

def wroteMedia (pt thisTs bytes : Nat) (e : WriteEnv) : RtpSend :=
  let cng := cfg.cngPt ≠ 0 ∧ pt = cfg.cngPt
  { s with
    lastWriteTs := thisTs
    writeReset := false
    delaySamples := if s.queueDelay ≠ 0 then s.queueDelay else s.delaySamples
    queueDelay := 0
    stats := { s.stats with
      rawBytes := addSize s.stats.rawBytes bytes
      packetCount := addSize s.stats.packetCount 1
      cngPacketCount := if cng then addSize s.stats.cngPacketCount 1 else s.stats.cngPacketCount
      mediaPacketCount :=
        if cng then s.stats.mediaPacketCount else addSize s.stats.mediaPacketCount 1
      mediaBytes := if cng then s.stats.mediaBytes else addSize s.stats.mediaBytes bytes }
    lastWriteSamplecount := if cfg.useTimer then e.samplecount else s.lastWriteSamplecount
    lastWriteTimestamp := if cfg.useTimer then s.lastWriteTimestamp else e.sentAt }

def sendMedia (o : Outgoing) (e : WriteEnv) : RtpSend × Int :=
  let seq := (s.seq + 1) % 65536
  let msg := swapOutgoing cfg (o.msg.setSeq seq) o.datalen
  match transmit cfg { s with seq := seq } msg o.bytes e.answers with
  | (s, msg, .stopped ret) => (s.keep o.own msg, ret)
  | (s, msg, .wrote bytes) =>
    (wroteMedia cfg (s.keep o.own msg) msg.pt o.msg.ts bytes e, bytes)

def prepareMsg (args : WriteArgs) (e : WriteEnv) : RtpSend × Outgoing :=
  let taken := takeMsg cfg s args e.samplecount
  let marked := markWrite cfg taken.1 taken.2.1.payload taken.2.2 e
  stampMsg cfg marked.1 taken.2.1 marked.2 e.newSsrc

/-- **`rtp_common_write`.** If the session is not ready, it returns `SWITCH_STATUS_FALSE`, 1. -/
def rtpCommonWrite (args : WriteArgs) (e : WriteEnv) : RtpSend × Int :=
  if !e.ready then (s, 1)
  else
    let prepared := prepareMsg cfg s args e
    match vadCheck cfg prepared.1 prepared.2 e.vad with
    | none => (prepared.1.keep prepared.2.own prepared.2.msg, -1)
    | some (o, send) =>
      let s := resetFar prepared.1 o.msg.ts
      if send && mayWrite s o.msg.ts e.stillReady then sendMedia cfg s o e
      else (s.keep o.own o.msg, o.bytes)

/-! ### `switch_rtp_write_manual` -/

def rtpMaxBufLen : Nat := 16384

/-- The arguments of `switch_rtp_write_manual`; `rtpHeader` is `SFF_RTP_HEADER`. -/
structure ManualArgs where
  data : List UInt8
  m : Bool
  payload : Nat
  ts : Nat
  rtpHeader : Bool

/-- What it finds; `remoteAddr` says that the address is set. -/
structure ManualEnv where
  ready : Bool
  remoteAddr : Bool
  answers : SendAnswers

def ManualEnv.goes (e : ManualEnv) (data : List UInt8) : Bool :=
  e.ready && e.remoteAddr && data.length ≤ rtpMaxBufLen

/-- `write_msg`: the header of the last packet with other fields, and the data. -/
def manualMsg (args : ManualArgs) (seq : Nat) : RtpMsg :=
  (((s.sendMsg.setSeq seq).setTs args.ts).setMPt args.m args.payload).put rtpHeaderLen args.data

/-- **`switch_rtp_write_manual`.** -/
def rtpWriteManual (args : ManualArgs) (e : ManualEnv) : RtpSend × Int :=
  if e.goes args.data then
    let seq := (s.seq + 1) % 65536
    match transmit cfg { s with seq := seq } (manualMsg s args seq) (rtpHeaderLen + args.data.length)
      e.answers with
    | (s, msg, .stopped ret) => ({ s with writeMsg := msg }, ret)
    | (s, msg, .wrote bytes) =>
      let s := { s with writeMsg := msg }
      (if args.rtpHeader then { s with lastWriteTs := args.ts, writeReset := false } else s, bytes)
  else (s, -1)

/-! ### Comfort noise and digits -/

def noiseDue (samplecount : Nat) : Bool :=
  cfg.autoCng && s.sendMsg.ts != 0 &&
    samplecount ≥ (s.lastWriteSamplecount + cfg.samplesPerInterval * 60) % 2 ^ 32

/-- `data` of that comfort noise, as far as it is sent. -/
def noiseData : List UInt8 := [65, 0]

/-- **The comfort noise of `check_srtp_and_ice`.** -/
def autoCng (samplecount : Nat) (e : ManualEnv) : RtpSend :=
  if noiseDue cfg s samplecount then
    let s := (getNextWriteTs cfg { s with cn := (s.cn + 1) % 256 } 0 samplecount).1
    let s := { s with sendMsg := s.sendMsg.setTs s.ts }
    let s := (rtpWriteManual cfg s ⟨noiseData, false, cfg.cngPt, s.sendMsg.ts, false⟩ e).1
    if cfg.useTimer then { s with lastWriteSamplecount := samplecount } else s
  else s

def setDtmfDelay (samplecount ms maxMs : Nat) : RtpSend :=
  let upsamp := ms * (cfg.samplesPerSecond / 1000) % 2 ^ 32
  let maxUpsamp := (if maxMs = 0 then ms else maxMs) * (cfg.samplesPerSecond / 1000) % 2 ^ 32
  let s := { s with queueDelay := upsamp }
  if cfg.useTimer then
    { s with
      maxNextWriteSamplecount := (samplecount + maxUpsamp) % 2 ^ 32
      nextWriteSamplecount := (samplecount + upsamp) % 2 ^ 32
      lastWriteTs := (s.lastWriteTs + upsamp) % 2 ^ 32 }
  else s

def charToRfc2833 (key : Char) : Nat := (rfc2833Chars.findIdx? (· == key.toUpper)).getD 0

def sendDigitPacket (m : Bool) (s : RtpSend) (e : ManualEnv) : RtpSend :=
  let wrote := rtpWriteManual cfg s
    ⟨s.dtmf.outDigitPacket, m, cfg.te, s.dtmf.timestampDtmf, false⟩ e
  { wrote.1 with stats := { wrote.1.stats with
      rawBytes := addSize wrote.1.stats.rawBytes wrote.2
      dtmfPacketCount := addSize wrote.1.stats.dtmfPacketCount 1 } }

def setDuration (packet : List UInt8) (duration : Nat) : List UInt8 :=
  (packet.set 2 (UInt8.ofNat (duration / 256))).set 3 (UInt8.ofNat duration)

def advanceDigit (d : DtmfOut) : DtmfOut :=
  let samples := cfg.samplesPerInterval
  let sofar := (d.outDigitSofar + samples) % 2 ^ 32
  let sum := (d.outDigitSubSofar + samples) % 2 ^ 32
  let sub := if sum > 0xFFFF then samples else sum
  let packet := if sofar ≥ d.outDigitDur then d.outDigitPacket.modify 1 (· ||| 0x80)
    else d.outDigitPacket
  { d with
    outDigitSofar := sofar
    outDigitSubSofar := sub
    timestampDtmf := if sum > 0xFFFF then (d.timestampDtmf + 0xFFFF) % 2 ^ 32 else d.timestampDtmf
    outDigitPacket := setDuration packet sub }

def afterMiddle (s : RtpSend) : RtpSend :=
  let last := (s.lastWriteTs + cfg.samplesPerInterval) % 2 ^ 32
  { s with
    lastWriteTs := last
    dtmf := { s.dtmf with timestampDtmf :=
      if cfg.sonusSendInvalidTimestamp2833 then last else s.dtmf.timestampDtmf } }

def afterEnd (samplecount : Nat) : RtpSend :=
  let s := { s with
    sendingDtmf := false
    needMark := true
    lastWriteSamplecount := if cfg.useTimer then samplecount else s.lastWriteSamplecount
    dtmf := { s.dtmf with outDigitDur := 0 } }
  if cfg.interdigitDelay = 0 then s
  else setDtmfDelay cfg s samplecount cfg.interdigitDelay (cfg.interdigitDelay * 10)

def digitDelay (samplecount : Nat) : RtpSend × Bool :=
  if cfg.useTimer then
    if samplecount < s.nextWriteSamplecount then (s, false)
    else
      let delay := if samplecount ≥ s.maxNextWriteSamplecount then 0 else s.queueDelay
      ({ s with queueDelay := delay }, delay == 0)
  else if s.queueDelay = 0 then (s, true)
  else
    let left := s.delaySamples - cfg.samplesPerInterval
    ({ s with delaySamples := left, queueDelay := if left = 0 then 0 else s.queueDelay }, left == 0)

def beginDigit (digit : Dtmf) : RtpSend :=
  let samples := cfg.samplesPerInterval
  let ts := (s.lastWriteTs + samples) % 2 ^ 32
  { s with
    dtmf := { s.dtmf with
      outDigitPacket := setDuration [UInt8.ofNat (charToRfc2833 digit.digit), 13, 0, 0] samples
      outDigitSofar := samples
      outDigitSubSofar := samples
      outDigitDur := digit.duration
      outDigit := digit.digit
      timestampDtmf := ts }
    lastWriteTs := ts
    writeReset := false }

/-- What the calls of `switch_rtp_write_manual` in one call of `do_2833` find. -/
structure DigitEnv where
  first : ManualEnv
  second : ManualEnv
  third : ManualEnv

/-- **`do_2833`.** -/
def do2833 (samplecount : Nat) (e : DigitEnv) : RtpSend :=
  if s.lastWriteTs = 0 then s
  else if 0 < s.dtmf.outDigitDur then
    let s := { s with dtmf := advanceDigit cfg s.dtmf }
    if s.dtmf.outDigitSofar ≥ s.dtmf.outDigitDur then
      afterEnd cfg (run (sendDigitPacket cfg false) s [e.first, e.second, e.third]) samplecount
    else afterMiddle cfg (sendDigitPacket cfg false s e.first)
  else
    match s.dtmf.dtmfQueue with
    | [] => s
    | digit :: rest =>
      let delayed := digitDelay cfg s samplecount
      if delayed.2 then
        let s := { delayed.1 with sendingDtmf := true, dtmf := { s.dtmf with dtmfQueue := rest } }
        if digit.digit = 'w' then setDtmfDelay cfg s samplecount 500 0
        else if digit.digit = 'W' then setDtmfDelay cfg s samplecount 1000 0
        else sendDigitPacket cfg (!cfg.ciscoSkipMarkBit2833) (beginDigit cfg s digit) e.first
      else delayed.1

/-! ### `switch_rtp_write_frame` -/

/-- `switch_frame_t`, with the flags `SFF_*` that are looked at. -/
structure Frame where
  data : List UInt8
  packet : RtpMsg
  packetlen : Nat
  m : Bool
  payload : Nat
  timestamp : Nat
  proxyPacket : Bool
  udptlPacket : Bool
  rawRtp : Bool
  cng : Bool
  rtpHeader : Bool
  rfc2833 : Bool

/-- What a call finds; `wrote` is what `switch_socket_sendto` writes of a proxied packet. -/
structure FrameEnv where
  ready : Bool
  remoteAddr : Bool
  wrote : Option Nat
  manual : ManualEnv
  write : WriteEnv

def proxied (frame : Frame) : Bool :=
  frame.proxyPacket || frame.udptlPacket || cfg.proxyMedia || cfg.udptl

def proxyFrame (frame : Frame) (wrote : Option Nat) : RtpSend × Int :=
  if !frame.proxyPacket && !frame.udptlPacket then (s, 0)
  else
    let numbered := !cfg.udptl && !frame.udptlPacket
    let s := if numbered then { s with seq := (s.seq + 1) % 65536 } else s
    let msg := if numbered && cfg.video && cfg.payload > 0 then frame.packet.setPt cfg.payload
      else frame.packet
    let msg := if numbered then (msg.setSsrc s.ssrc).setSeq s.seq else msg
    let s := { s with log := s.log ++ [⟨msg.mem.slice 0 frame.packetlen, none, wrote⟩] }
    match wrote with
    | none => (s, -1)
    | some bytes =>
      ({ s with stats := { s.stats with
          rawBytes := addSize s.stats.rawBytes bytes
          mediaBytes := addSize s.stats.mediaBytes bytes
          mediaPacketCount := addSize s.stats.mediaPacketCount 1
          packetCount := addSize s.stats.packetCount 1 } }, bytes)

/-- A frame with `SFF_RTP_HEADER` is also written by `switch_rtp_write_manual`. -/
def writeHeader (frame : Frame) (e : ManualEnv) : RtpSend :=
  let wrote := rtpWriteManual cfg s
    ⟨frame.data, frame.m, frame.payload, frame.timestamp % 2 ^ 32, frame.rtpHeader⟩ e
  { wrote.1 with stats := { wrote.1.stats with
      rawBytes := addSize wrote.1.stats.rawBytes wrote.2
      mediaBytes := addSize wrote.1.stats.mediaBytes wrote.2
      mediaPacketCount := addSize wrote.1.stats.mediaPacketCount 1
      packetCount := addSize wrote.1.stats.packetCount 1 } }

def checkGenerated (frame : Frame) : RtpSend :=
  if !(s.rawWrite && frame.rawRtp) && !s.sendingDtmf && s.queueDelay == 0 && s.rawWrite &&
      cfg.genOneGenAll then { s with rawWrite := false, writeReset := true }
  else s

/-- How `switch_rtp_write_frame` calls `rtp_common_write`: with the packet, if it is forwarded, or
the payload. -/
def frameArgs (frame : Frame) (fwd : Bool) : WriteArgs where
  packet := if fwd then
      .inl (frame.packet.setPt (if frame.cng then cfg.cngPt else cfg.payload), frame.packetlen)
    else .inr frame.data
  payload := if frame.cng then cfg.cngPt else cfg.payload
  timestamp := if fwd then 0 else if s.rawWrite then frame.timestamp % 2 ^ 32 else 0
  rfc2833 := frame.rfc2833

/-- **`switch_rtp_write_frame`.** -/
def rtpWriteFrame (frame : Frame) (e : FrameEnv) : RtpSend × Int :=
  if !e.ready || !e.remoteAddr then (s, -1)
  else if proxied cfg frame then proxyFrame cfg s frame e.wrote
  else
    let fwd := s.rawWrite && frame.rawRtp
    let s := checkGenerated cfg s frame
    if frame.cng && cfg.cngPt == 0 then (s, frame.packetlen)
    else
      let s := if frame.rtpHeader then writeHeader cfg s frame e.manual else s
      rtpCommonWrite cfg s (frameArgs cfg s frame fwd) e.write

/-! ### Runs -/

/-- `switch_rtp_queue_rfc2833`; `room` says that the queue is not full. -/
def queueRfc2833 (ready room : Bool) (dtmf : Dtmf) : RtpSend :=
  if ready && room then
    { s with dtmf := { s.dtmf with
        dtmfQueue := s.dtmf.dtmfQueue ++ [⟨dtmf.digit, max dtmf.duration cfg.minDtmfDuration⟩] } }
  else s

/-- What is called to send. `newKey` is `switch_rtp_add_crypto_key` on a session that is secured
already. -/
inductive SendOp
  | write (args : WriteArgs) (env : WriteEnv)
  | manual (args : ManualArgs) (env : ManualEnv)
  | noise (samplecount : Nat) (env : ManualEnv)
  | digits (samplecount : Nat) (env : DigitEnv)
  | frame (frame : Frame) (env : FrameEnv)
  | queueDigit (ready room : Bool) (dtmf : Dtmf)
  | newKey

def sendStep (s : RtpSend) : SendOp → RtpSend
  | .write args env => (rtpCommonWrite cfg s args env).1
  | .manual args env => (rtpWriteManual cfg s args env).1
  | .noise samplecount env => autoCng cfg s samplecount env
  | .digits samplecount env => do2833 cfg s samplecount env
  | .frame frame env => (rtpWriteFrame cfg s frame env).1
  | .queueDigit ready room dtmf => queueRfc2833 cfg s ready room dtmf
  | .newKey => { s with secureSendReset := true }

end FreeSwitch
