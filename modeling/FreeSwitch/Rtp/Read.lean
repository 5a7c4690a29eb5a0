/-
**Receiving RTP.**

`read_rtp_packet` and `do_flush`, with `srtp_unprotect` as an oracle, and runs of them in which
`handle_rfc2833` is called on what was read, as `rtp_common_read` does.

* `refused_datagram_harmless`: what can not come of a datagram that was not accepted.
-/

import FreeSwitch.Rtp.Rfc2833
import FreeSwitch.Lib.Run

namespace FreeSwitch

open List Option RtpMsg Run

/-! ### `read_rtp_packet` -/

def maxSrtpErrs : Nat := 10

def rtpMaxBufLenWords : Nat := 4094

/-- A digit was queued, a frame was given to the jitter buffer, or `read_rtp_packet` returned a
length, with the errors by then. -/
inductive RecvEvent
  | digit (source : Option Received) (dtmf : Dtmf)
  | eaten (source : Option Received)
  | yielded (source : Option Received) (bytes : Nat) (status : ReadStatus) (errs : Nat)
  deriving DecidableEq

/-- The session, the caller's length and `SFF_PLC`, and the datagram in the receive buffer, with the
log. -/
structure Receiver where
  session : RtpRecv
  bytes : Nat
  plc : Bool
  current : Option Received
  log : List RecvEvent

variable (cfg : RtpConfig)

/-- After `switch_socket_recvfrom` a header extension is swapped in place and skipped. -/
def receiveMsg (old : RtpMsg) (data : List UInt8) : RtpMsg :=
  let msg : RtpMsg := ⟨old.mem.write 0 data, none⟩
  if data ≠ [] ∧ !cfg.proxyMedia ∧ !cfg.udptl ∧ msg.version = 2 ∧ msg.x then
    let length := msg.mem.be16 14
    { mem := msg.mem.write 12 [msg.mem 13, msg.mem 12, msg.mem 15, msg.mem 14]
      ext := if length < rtpMaxBufLenWords then some length else none }
  else msg

/-- How the crypto steps leave a packet: refused with a status, or passed on with a length. -/
inductive CryptoResult
  | returns (bytes : Nat) (status : ReadStatus)
  | goes (bytes : Nat)

variable (r : Receiver)

/-- `srtp_unprotect` and its errors, which are not counted for telephone events and comfort noise;
these go on with the length that is left. -/
def unprotect (d : Datagram) (bytes : Nat) : Receiver × CryptoResult :=
  let s := { r.session with recvMsg := r.session.recvMsg.put rtpHeaderLen d.clear }
  let pt := s.recvMsg.pt
  let r := { r with current := some ⟨d, .ofStat d.stat, pt⟩ }
  if d.stat ≠ 0 ∧ pt ≠ cfg.recvTe ∧ pt ≠ cfg.cngPt then
    ({ r with session := { s with srtpErrs := s.srtpErrs + 1 } },
      if s.srtpErrs + 1 ≥ maxSrtpErrs then .returns bytes .failure else .goes 0)
  else ({ r with session := { s with srtpErrs := 0 } }, .goes d.sbytes)

/-- The SRTP step, for `bytes` bytes. With `SFF_PLC` set nothing is checked. -/
def srtpRecv (plc : Bool) (r : Receiver) (d : Datagram) (bytes : Nat) : Receiver × CryptoResult :=
  let s := r.session
  if cfg.secureRecv && (!cfg.iceUser || s.recvMsg.version == 2) then
    if s.secureRecvReset && !d.create then
      ({ r with session := { s with secureRecvReset := false } }, .returns bytes .failure)
    else
      let errs := if s.secureRecvReset then 0 else s.srtpErrs
      if plc then
        ({ r with session := { s with secureRecvReset := false, srtpErrs := 0 } }, .goes bytes)
      else
        unprotect cfg { r with session := { s with secureRecvReset := false, srtpErrs := errs } }
          d bytes
  else (r, .goes bytes)

def cryptoRecv (plc : Bool) (r : Receiver) (d : Datagram) (bytes : Nat) : Receiver × CryptoResult :=
  if bytes = 0 || cfg.proxyMedia || cfg.udptl then (r, .goes bytes)
  else
    match d.zrtp with
    | .off => srtpRecv cfg plc r d bytes
    | .ok sbytes => srtpRecv cfg plc r d sbytes
    | .drop => (r, .returns 0 .success)
    | .fail => (r, .returns bytes .failure)
    | .other _ => srtpRecv cfg plc r d bytes

/-- A frame from the jitter buffer, in place of what was read: its payload and part of its header go
to the receive buffer. -/
def putFrame (f : JbFrame) : Receiver :=
  let msg := r.session.recvMsg.put r.session.recvMsg.body f.data
  { r with
    session := { r.session with recvMsg := ((msg.setTs f.ts).setPt f.pt).setSeq f.seq }
    current := f.source }

/-- The end of `read_rtp_packet`: a frame of the jitter buffer, if there is one. -/
def readJb (d : Datagram) (bytes : Nat) (status : ReadStatus) : Receiver × Nat × ReadStatus :=
  match r.session.jb, r.session.pauseJb, d.jbRead with
  | some frames, false, .held i =>
    match frames[i]? with
    | some f => (putFrame r f, f.data.length + rtpHeaderLen, .success)
    | none => (r, bytes, status)
  | some _, false, .plc data ts seq pt =>
    ({ putFrame r ⟨data, ts, seq, pt, none⟩ with plc := true }, data.length + rtpHeaderLen, .success)
  | _, _, _ => (r, bytes, status)

def swapPayload (msg : RtpMsg) (bytes : Nat) : RtpMsg :=
  if cfg.byteswap && msg.pt == cfg.rpayload then
    { msg with mem := swapLinear msg.mem msg.body (bytes - rtpHeaderLen) }
  else msg

def eatFrame (frames : List JbFrame) (ts bytes : Nat) (tooLate : Bool) : Receiver :=
  let msg := r.session.recvMsg
  let frames := if msg.m && msg.pt != cfg.recvTe && !cfg.video && !cfg.ignoreMarkBit then []
    else frames
  let frame : JbFrame :=
    ⟨msg.mem.slice msg.body (bytes - rtpHeaderLen), ts, msg.seq, msg.pt, r.current⟩
  { r with
    session := { r.session with jb := some (if tooLate then frames else frames ++ [frame]) }
    log := r.log ++ [.eaten r.current] }

def swapReceived (r : Receiver) (ts bytes : Nat) : Receiver :=
  { r with session := { r.session with
      lastReadTs := ts, recvMsg := swapPayload cfg r.session.recvMsg bytes } }

/-- The jitter buffer; `none` is `goto more`. -/
def readBuffered (returnJb : Bool) (r : Receiver) (d : Datagram) (ts bytes : Nat) :
    Receiver × Option (Nat × ReadStatus) :=
  match r.session.jb with
  | some frames =>
    if !r.session.pauseJb && r.session.recvMsg.version == 2 && bytes != 0 then
      let r := eatFrame cfg r frames ts bytes d.tooLate
      if d.tooLate then (r, none)
      else if returnJb then
        let last := readJb r d 0 .failure
        (last.1, some last.2)
      else (r, some (bytes, .failure))
    else
      let last := readJb r d bytes d.status
      (last.1, some last.2)
  | none => (r, some (bytes, d.status))

/-- Behind the crypto steps. -/
def readBody (returnJb : Bool) (r : Receiver) (d : Datagram) (ts bytes : Nat) :
    Receiver × Option (Nat × ReadStatus) :=
  if cfg.recvTe ≠ 0 ∧ r.session.recvMsg.pt = cfg.recvTe ∨ bytes < rtpHeaderLen ∧ 0 < bytes ∨
    cfg.proxyMedia ∨ cfg.udptl then (r, some (bytes, .success))
  else readBuffered cfg returnJb (swapReceived cfg r ts bytes) d ts bytes

def receive (d : Datagram) : Receiver :=
  let msg := receiveMsg cfg r.session.recvMsg d.data
  { r with
    session := { r.session with recvMsg := msg }
    current := if d.data = [] then r.current else some ⟨d, .unchecked, msg.pt⟩ }

/-- One pass of `read_rtp_packet` from its label `more`. -/
def readOnce (returnJb plc : Bool) (r : Receiver) (d : Datagram) :
    Receiver × Option (Nat × ReadStatus) :=
  let r := receive cfg r d
  let s := r.session
  let msg := s.recvMsg
  -- the frame for this time has been made up already
  if d.data ≠ [] ∧ (cfg.recvTe = 0 ∨ msg.pt ≠ cfg.recvTe) ∧ msg.ts ≠ 0 ∧ s.jb.isNone ∧ !s.pauseJb ∧
      msg.ts = s.lastCngTs then (r, some (0, .success))
  else
    match cryptoRecv cfg plc r d d.data.length with
    | (r, .returns bytes status) => (r, some (bytes, status))
    | (r, .goes bytes) => readBody cfg returnJb r d msg.ts bytes

def noDatagram : Datagram := ⟨[], .pause, .off, false, 0, 0, [], false, .none⟩

/-- **`read_rtp_packet`**, with the datagrams that arrive; when there is none left, nothing is
received. -/
def readRtpPacket (cfg : RtpConfig) (returnJb plc : Bool) (r : Receiver) :
    List Datagram → Receiver × Nat × ReadStatus
  | [] =>
    match readOnce cfg returnJb plc r noDatagram with
    | (r, some result) => (r, result)
    | (r, none) => (r, 0, .pause)
  | d :: ds =>
    match readOnce cfg returnJb plc r d with
    | (r, some result) => (r, result)
    | (r, none) => readRtpPacket cfg returnJb plc r ds

/-! ### `do_flush` and runs -/

/-- `handle_rfc2833` on the receive buffer, with the digits it queues. -/
def handleReceived (ready : Bool) (bytes : Nat) (r : Receiver) : Receiver :=
  let after := (handleRfc2833 cfg ready bytes r.session).1
  { r with
    session := after
    log := r.log ++ (after.dtmf.inqueue.drop r.session.dtmf.inqueue.length).map
      fun dtmf => .digit r.current dtmf }

def flushOne (ready : Bool) (r : Receiver) (d : Datagram) : Receiver :=
  let msg := r.session.recvMsg.put 0 d.data
  let r := { r with
    session := { r.session with recvMsg := msg }
    current := some ⟨d, .unchecked, msg.pt⟩ }
  if rtpHeaderLen < d.data.length ∧ cfg.recvTe ≠ 0 ∧ msg.pt = cfg.recvTe then
    handleReceived cfg ready d.data.length r
  else r

/-- **`do_flush`**, with the datagrams that are waiting. -/
def doFlush (ready : Bool) (r : Receiver) (waiting : List Datagram) : Receiver :=
  if !ready || cfg.proxyMedia || cfg.video || r.session.passingDtmf != 0 then r
  else (waiting.takeWhile fun d => d.data ≠ []).foldl (flushOne cfg ready) r

/-- What `rtp_common_read` and its callers do, and a new key for the session. -/
inductive RecvOp
  | read (returnJb plc : Bool) (arriving : List Datagram)
  | handle (ready : Bool)
  | discard
  | flush (ready : Bool) (waiting : List Datagram)
  | dequeue
  | newKey

def recvStep (r : Receiver) : RecvOp → Receiver
  | .read returnJb plc arriving =>
    match readRtpPacket cfg returnJb plc { r with plc := plc } arriving with
    | (r, bytes, status) =>
      { r with
        bytes := bytes
        log := r.log ++
          if bytes = 0 then [] else [.yielded r.current bytes status r.session.srtpErrs] }
  | .handle ready => handleReceived cfg ready r.bytes r
  | .discard => { r with bytes := 0 }
  | .flush ready waiting => { doFlush cfg ready r waiting with bytes := 0 }
  | .dequeue =>
    { r with session := { r.session with
        dtmf := { r.session.dtmf with inqueue := r.session.dtmf.inqueue.tail } } }
  | .newKey => { r with session := { r.session with secureRecvReset := true } }

/-! ### Datagrams that are not accepted -/

/-- A session whose packets go through `srtp_unprotect`. -/
structure Protected (cfg : RtpConfig) : Prop where
  secure : cfg.secureRecv = true
  noIce : cfg.iceUser = false
  noProxy : cfg.proxyMedia = false
  noUdptl : cfg.udptl = false

/-- Not accepted by `srtp_unprotect`, and of no payload type whose errors are ignored. -/
structure Refused (cfg : RtpConfig) (x : Received) : Prop where
  notAccepted : x.verdict ≠ .accepted
  notTe : x.pt ≠ cfg.recvTe
  notCng : x.pt ≠ cfg.cngPt

def FailsFor (x : Received) (status : ReadStatus) (errs : Nat) : Prop :=
  status = .failure ∧ (x.verdict = .rejected → maxSrtpErrs ≤ errs)

/-- A digit is one of the telephone-event type; of a refused datagram nothing comes but a call that
fails. -/
def RecvEvent.Harmless (cfg : RtpConfig) : RecvEvent → Prop
  | .digit source _ => ∀ x, source = some x → x.pt = cfg.recvTe
  | .eaten source => ∀ x, source = some x → ¬ Refused cfg x
  | .yielded source _ status errs => ∀ x, source = some x → Refused cfg x → FailsFor x status errs

def JbFrame.Clean (f : JbFrame) : Prop :=
  ∀ x, f.source = some x → f.pt % 128 = x.pt ∧ ¬ Refused cfg x

/-- **What holds of a receiver.** The jitter buffer has no frame of a refused datagram; the receive
buffer still has the payload type of its datagram; and nothing came of a refused one but failures.
-/
structure ReceiverInv (cfg : RtpConfig) (r : Receiver) : Prop where
  frames : ∀ frames, r.session.jb = some frames → ∀ f ∈ frames, f.Clean cfg
  current : ∀ x, r.current = some x → r.session.recvMsg.pt = x.pt
  log : ∀ event ∈ r.log, event.Harmless cfg

def NothingRefused (bytes : Nat) (status : ReadStatus) : Prop :=
  ∀ x, r.current = some x → Refused cfg x → bytes = 0 ∨ FailsFor x status r.session.srtpErrs

section Keeps

variable {cfg : RtpConfig} {r r' : Receiver}

theorem ReceiverInv.of_same (inv : ReceiverInv cfg r) (jb : r'.session.jb = r.session.jb)
    (pt : r'.session.recvMsg.pt = r.session.recvMsg.pt) (current : r'.current = r.current)
    (log : r'.log = r.log) : ReceiverInv cfg r' where
  frames frames held := inv.frames frames (jb ▸ held)
  current x is := pt.trans (inv.current x (current ▸ is))
  log event member := inv.log event (log ▸ member)

theorem ReceiverInv.logs (inv : ReceiverInv cfg r) {events : List RecvEvent}
    (harmless : ∀ event ∈ events, event.Harmless cfg) :
    ReceiverInv cfg { r with log := r.log ++ events } where
  frames := inv.frames
  current := inv.current
  log event member := (mem_append.mp member).elim (inv.log event) (harmless event)

theorem pt_receiveMsg_nil (cfg : RtpConfig) (old : RtpMsg) :
    (receiveMsg cfg old []).pt = old.pt := by
  have same : old.mem.write 0 [] = old.mem := by
    funext i
    exact if_neg fun inside => absurd inside.2 (Nat.not_lt.mpr inside.1)
  simp [receiveMsg, pt, same]

theorem ReceiverInv.receives (inv : ReceiverInv cfg r) (d : Datagram) :
    ReceiverInv cfg (receive cfg r d) := by
  refine ⟨inv.frames, fun x is => ?_, inv.log⟩
  unfold receive at is ⊢
  by_cases empty : d.data = []
  · simp only [empty, if_true] at is ⊢
    exact (pt_receiveMsg_nil cfg _).trans (inv.current x is)
  · simp only [empty, if_false, some.injEq] at is
    exact congrArg Received.pt is

theorem receive_current {d : Datagram} (given : d.data ≠ []) {x : Received}
    (is : (receive cfg r d).current = some x) : x.verdict ≠ .rejected := by
  simp only [receive, if_neg given, some.injEq] at is
  rw [← is]
  exact Verdict.noConfusion

def CryptoOk (cfg : RtpConfig) (r : Receiver) : CryptoResult → Prop
  | .returns bytes status => NothingRefused cfg r bytes status
  | .goes bytes => ∀ x, r.current = some x → Refused cfg x → bytes = 0

def CryptoKeeps (cfg : RtpConfig) (out : Receiver × CryptoResult) : Prop :=
  ReceiverInv cfg out.1 ∧ CryptoOk cfg out.1 out.2

theorem unprotect_ok (inv : ReceiverInv cfg r) (d : Datagram) (bytes : Nat) :
    CryptoKeeps cfg (unprotect cfg r d bytes) := by
  unfold unprotect
  simp only
  split
  next refuses =>
    refine ⟨⟨inv.frames, fun x is => ?_, inv.log⟩, ?_⟩
    · exact congrArg Received.pt (some.inj is)
    · split
      next many => exact fun x _ _ => .inr ⟨rfl, fun _ => many⟩
      next => exact fun x _ _ => rfl
  next passes =>
    refine ⟨⟨inv.frames, fun x is => ?_, inv.log⟩, fun x is refused => ?_⟩
    · exact congrArg Received.pt (some.inj is)
    · obtain rfl := some.inj is
      have failed : d.stat ≠ 0 := fun zero => refused.notAccepted (by simp [zero, Verdict.ofStat])
      exact absurd ⟨failed, refused.notTe, refused.notCng⟩ passes

theorem srtpRecv_ok (protection : Protected cfg) (inv : ReceiverInv cfg r)
    (fresh : ∀ x, r.current = some x → x.verdict ≠ .rejected) (d : Datagram) (bytes : Nat) :
    CryptoKeeps cfg (srtpRecv cfg false r d bytes) := by
  have reset : ∀ errs, ReceiverInv cfg
      { r with session := { r.session with secureRecvReset := false, srtpErrs := errs } } :=
    fun errs => inv.of_same rfl rfl rfl rfl
  unfold srtpRecv
  simp only [protection.secure, protection.noIce, Bool.not_false, Bool.true_or, Bool.and_self,
    if_true, Bool.false_eq_true, if_false]
  split
  · exact ⟨reset _, fun x is _ => .inr ⟨rfl, fun rejected => absurd rejected (fresh x is)⟩⟩
  · exact unprotect_ok (reset _) d bytes

theorem cryptoRecv_ok (protection : Protected cfg) (inv : ReceiverInv cfg r) {d : Datagram}
    (fresh : d.data ≠ [] → ∀ x, r.current = some x → x.verdict ≠ .rejected) :
    CryptoKeeps cfg (cryptoRecv cfg false r d d.data.length) := by
  by_cases given : d.data = []
  · have idle : cryptoRecv cfg false r d d.data.length = (r, .goes 0) := by
      rw [given]
      rfl
    rw [idle]
    exact ⟨inv, fun _ _ _ => rfl⟩
  · have fresh := fresh given
    have length : d.data.length ≠ 0 := fun zero => given (eq_nil_of_length_eq_zero zero)
    unfold cryptoRecv
    rw [if_neg (by simp [length, protection.noProxy, protection.noUdptl])]
    split
    · exact srtpRecv_ok protection inv fresh d _
    · exact srtpRecv_ok protection inv fresh d _
    · exact ⟨inv, fun _ _ _ => .inl rfl⟩
    · exact ⟨inv, fun x is _ => .inr ⟨rfl, fun rejected => absurd rejected (fresh x is)⟩⟩
    · exact srtpRecv_ok protection inv fresh d _

theorem pt_putFrame (r : Receiver) (f : JbFrame) :
    (putFrame r f).session.recvMsg.pt = f.pt % 128 := by
  unfold putFrame
  simp only [setSeq]
  rw [pt_put (Nat.le_refl 2)]
  exact pt_setPt _ _

def ReadKeeps (cfg : RtpConfig) (out : Receiver × Nat × ReadStatus) : Prop :=
  ReceiverInv cfg out.1 ∧ NothingRefused cfg out.1 out.2.1 out.2.2

theorem readJb_ok (inv : ReceiverInv cfg r) (d : Datagram) {bytes : Nat} {status : ReadStatus}
    (nothing : NothingRefused cfg r bytes status) : ReadKeeps cfg (readJb r d bytes status) := by
  have frame : ∀ f : JbFrame, f.Clean cfg → ReceiverInv cfg (putFrame r f) ∧
      ∀ x, (putFrame r f).current = some x → ¬ Refused cfg x := fun f clean =>
    ⟨⟨inv.frames, fun x is => (pt_putFrame r f).trans (clean x is).1, inv.log⟩,
      fun x is => (clean x is).2⟩
  unfold readJb
  split
  next frames i held _ _ =>
    split
    next f found =>
      obtain ⟨after, clean⟩ := frame f (inv.frames frames held f (mem_of_getElem? found))
      exact ⟨after, fun x is refused => absurd refused (clean x is)⟩
    next => exact ⟨inv, nothing⟩
  next data ts seq pt _ _ _ =>
    obtain ⟨after, clean⟩ := frame ⟨data, ts, seq, pt, none⟩ fun x is => nomatch is
    exact ⟨after.of_same rfl rfl rfl rfl, fun x is refused => absurd refused (clean x is)⟩
  next => exact ⟨inv, nothing⟩

theorem pt_swapPayload (cfg : RtpConfig) (msg : RtpMsg) (bytes : Nat) :
    (swapPayload cfg msg bytes).pt = msg.pt := by
  unfold swapPayload
  split
  · exact pt_swapLinear msg _
  · rfl

theorem eatFrame_inv (inv : ReceiverInv cfg r) {frames : List JbFrame}
    (held : r.session.jb = some frames) (clean : ∀ x, r.current = some x → ¬ Refused cfg x)
    (ts bytes : Nat) (tooLate : Bool) :
    ReceiverInv cfg (eatFrame cfg r frames ts bytes tooLate) := by
  have old : ∀ f ∈ frames, f.Clean cfg := inv.frames frames held
  have new : ∀ data ts seq, JbFrame.Clean cfg ⟨data, ts, seq, r.session.recvMsg.pt, r.current⟩ :=
    fun _ _ _ x source => ⟨(Nat.mod_mod _ 128).trans (inv.current x source), clean x source⟩
  refine ⟨fun after is f member => ?_, inv.current, fun event member => ?_⟩
  · obtain rfl := some.inj is
    split_ifs at member with late mark
    · cases member
    · exact old f member
    · obtain rfl := mem_singleton.mp member
      exact new _ _ _
    · rcases mem_append.mp member with kept | added
      · exact old f kept
      · obtain rfl := mem_singleton.mp added
        exact new _ _ _
  · rcases mem_append.mp member with old | new
    · exact inv.log event old
    · obtain rfl := mem_singleton.mp new
      exact clean

def PassKeeps (cfg : RtpConfig) (out : Receiver × Option (Nat × ReadStatus)) : Prop :=
  ReceiverInv cfg out.1 ∧ ∀ result ∈ out.2, ReadKeeps cfg (out.1, result)

theorem readBody_ok (inv : ReceiverInv cfg r) (returnJb : Bool) (d : Datagram) (ts : Nat)
    {bytes : Nat} (zero : ∀ x, r.current = some x → Refused cfg x → bytes = 0) :
    PassKeeps cfg (readBody cfg returnJb r d ts bytes) := by
  have nothing : ∀ r' : Receiver, r'.current = r.current → ∀ status,
      NothingRefused cfg r' bytes status := fun r' same status x is refused =>
    .inl (zero x (same ▸ is) refused)
  have swapped : ReceiverInv cfg (swapReceived cfg r ts bytes) :=
    inv.of_same rfl (pt_swapPayload cfg _ _) rfl rfl
  unfold readBody
  split
  · exact ⟨inv, fun result is => some.inj is ▸ ⟨inv, nothing r rfl _⟩⟩
  · unfold readBuffered
    split
    next frames held =>
      split
      next gives =>
        have clean : ∀ x, r.current = some x → ¬ Refused cfg x := fun x is refused => by
          simp [zero x is refused] at gives
        have eaten := eatFrame_inv swapped held clean ts bytes d.tooLate
        dsimp only
        split
        · exact ⟨eaten, fun result is => nomatch is⟩
        · split
          · have read : ReadKeeps cfg (readJb _ d 0 .failure) :=
              readJb_ok eaten d fun _ _ _ => .inl rfl
            exact ⟨read.1, fun result is => some.inj is ▸ read⟩
          · exact ⟨eaten, fun result is => some.inj is ▸ ⟨eaten, nothing _ rfl _⟩⟩
      next =>
        have read := readJb_ok swapped d (nothing _ rfl d.status)
        exact ⟨read.1, fun result is => some.inj is ▸ read⟩
    next => exact ⟨swapped, fun result is => some.inj is ▸ ⟨swapped, nothing _ rfl _⟩⟩

theorem readOnce_ok (protection : Protected cfg) (inv : ReceiverInv cfg r) (returnJb : Bool)
    (d : Datagram) : PassKeeps cfg (readOnce cfg returnJb false r d) := by
  have received := inv.receives d
  unfold readOnce
  simp only
  split
  · exact ⟨received, fun result is => some.inj is ▸ ⟨received, fun _ _ _ => .inl rfl⟩⟩
  · have keeps := cryptoRecv_ok protection received fun given x => receive_current given
    split
    next r' bytes status crypto =>
      rw [crypto] at keeps
      exact ⟨keeps.1, fun result is => some.inj is ▸ keeps⟩
    next r' bytes crypto =>
      rw [crypto] at keeps
      exact readBody_ok keeps.1 returnJb d _ keeps.2

/-- **`read_rtp_packet` keeps the invariant**, and gives the caller nothing of a refused datagram.
-/
theorem readRtpPacket_ok (protection : Protected cfg) (returnJb : Bool) (arriving : List Datagram)
    (inv : ReceiverInv cfg r) : ReadKeeps cfg (readRtpPacket cfg returnJb false r arriving) := by
  induction arriving generalizing r with
  | nil =>
    have keeps := readOnce_ok protection inv returnJb noDatagram
    unfold readRtpPacket
    split
    next r' result once => exact (once ▸ keeps).2 result rfl
    next r' once => exact ⟨(once ▸ keeps).1, fun _ _ _ => .inl rfl⟩
  | cons d ds ih =>
    have keeps := readOnce_ok protection inv returnJb d
    unfold readRtpPacket
    split
    next r' result once => exact (once ▸ keeps).2 result rfl
    next r' once => exact ih (once ▸ keeps).1

theorem handleReceived_inv (inv : ReceiverInv cfg r) (ready : Bool) (bytes : Nat) :
    ReceiverInv cfg (handleReceived cfg ready bytes r) := by
  obtain ⟨buffer, jb⟩ := handleRfc2833_frame cfg ready bytes r.session
  refine ⟨fun frames held f member => ?_, fun x is => ?_, fun event member => ?_⟩
  · rcases jb with same | emptied
    · exact inv.frames frames (same.symm.trans held) f member
    · obtain ⟨old, -, rfl⟩ := map_eq_some_iff.mp (emptied.symm.trans held)
      cases member
  · exact (congrArg pt buffer).trans (inv.current x is)
  · rcases mem_append.mp member with old | new
    · exact inv.log event old
    · obtain ⟨dtmf, queued, rfl⟩ := mem_map.mp new
      intro x is
      by_contra notTe
      have other : isTelephoneEvent cfg r.session.recvMsg bytes = false := by
        have pt : (r.session.recvMsg.pt == cfg.recvTe) = false :=
          beq_eq_false_iff_ne.mpr ((inv.current x is).trans_ne notTe)
        rw [isTelephoneEvent, pt, Bool.and_false]
      rw [handleRfc2833_inqueue ready other, drop_length] at queued
      cases queued

theorem flushOne_inv (inv : ReceiverInv cfg r) (ready : Bool) (d : Datagram) :
    ReceiverInv cfg (flushOne cfg ready r d) := by
  have received : ReceiverInv cfg { r with
      session := { r.session with recvMsg := r.session.recvMsg.put 0 d.data }
      current := some ⟨d, .unchecked, (r.session.recvMsg.put 0 d.data).pt⟩ } :=
    ⟨inv.frames, fun x is => congrArg Received.pt (some.inj is), inv.log⟩
  unfold flushOne
  simp only
  split
  · exact handleReceived_inv received ready _
  · exact received

theorem doFlush_inv (inv : ReceiverInv cfg r) (ready : Bool) (waiting : List Datagram) :
    ReceiverInv cfg (doFlush cfg ready r waiting) := by
  unfold doFlush
  split
  · exact inv
  · exact run_keeps_all (P := ReceiverInv cfg) (fun _ d inv => flushOne_inv inv ready d) inv _

/-- The call is not one with `SFF_PLC` set. -/
def RecvOp.NoPlc : RecvOp → Prop
  | .read _ plc _ => plc = false
  | _ => True

theorem recvStep_inv (protection : Protected cfg) (inv : ReceiverInv cfg r) {op : RecvOp}
    (noPlc : op.NoPlc) : ReceiverInv cfg (recvStep cfg r op) := by
  cases op with
  | read returnJb plc arriving =>
    obtain rfl : plc = false := noPlc
    have start : ReceiverInv cfg { r with plc := false } := inv.of_same rfl rfl rfl rfl
    obtain ⟨after, nothing⟩ := readRtpPacket_ok protection returnJb arriving start
    unfold recvStep
    refine (after.logs fun event member => ?_).of_same rfl rfl rfl rfl
    split at member
    · cases member
    next some =>
      obtain rfl := mem_singleton.mp member
      exact fun x is refused => (nothing x is refused).resolve_left some
  | handle ready => exact handleReceived_inv inv ready r.bytes
  | flush ready waiting => exact (doFlush_inv inv ready waiting).of_same rfl rfl rfl rfl
  | _ => exact inv.of_same rfl rfl rfl rfl

end Keeps

def recvStart (session : RtpRecv) : Receiver where
  session := { session with
    jb := session.jb.map fun frames => frames.map fun f => { f with source := none } }
  bytes := 0
  plc := false
  current := none
  log := []

theorem recvStart_inv (session : RtpRecv) : ReceiverInv cfg (recvStart session) where
  frames frames held f member x source := by
    obtain ⟨old, -, rfl⟩ := map_eq_some_iff.mp held
    obtain ⟨g, -, rfl⟩ := mem_map.mp member
    cases source
  current _ is := nomatch is
  log _ member := nomatch member

/-- **Fail closed on receive.** In every run on a protected session, a datagram that
`srtp_unprotect` does not accept causes no digit unless it is a telephone event. If it is not
comfort noise either, then it is not given to the jitter buffer, and its length is given to the
caller by a call that fails only: where it was rejected, with ten errors in a row. -/
theorem refused_datagram_harmless {cfg : RtpConfig} (protection : Protected cfg) (session : RtpRecv)
    {ops : List RecvOp} (noPlc : ∀ op ∈ ops, op.NoPlc) {x : Received}
    (notAccepted : x.verdict ≠ .accepted) :
    let log := (run (recvStep cfg) (recvStart session) ops).log
    (∀ dtmf, RecvEvent.digit (some x) dtmf ∈ log → x.pt = cfg.recvTe) ∧
      (x.pt ≠ cfg.recvTe → x.pt ≠ cfg.cngPt → RecvEvent.eaten (some x) ∉ log ∧
        ∀ bytes status errs, RecvEvent.yielded (some x) bytes status errs ∈ log →
          status = .failure ∧ (x.verdict = .rejected → maxSrtpErrs ≤ errs)) := by
  have inv :=
    run_keeps (P := ReceiverInv cfg) (fun r op inv noPlc => recvStep_inv protection inv noPlc)
      (recvStart_inv cfg session) (along_of_forall (fun op member _ => noPlc op member) _)
  refine ⟨fun dtmf member => inv.log _ member x rfl, fun notTe notCng => ?_⟩
  have refused : Refused cfg x := ⟨notAccepted, notTe, notCng⟩
  exact ⟨fun member => inv.log _ member x rfl refused,
    fun bytes status errs member => inv.log _ member x rfl refused⟩

/-- A session with `SECURE_RECV` set, where telephone events are of type 101. -/
def securedConfig : RtpConfig :=
  { (default : RtpConfig) with recvTe := 101, cngPt := 13, secureRecv := true }

theorem securedConfig_protected : Protected securedConfig := ⟨rfl, rfl, rfl, rfl⟩

/-- Not accepted by `srtp_unprotect`, with `err_status_auth_fail`. -/
def forged (data : List UInt8) : Datagram :=
  ⟨data, .success, .off, true, 7, data.length, data.drop rtpHeaderLen, false, .none⟩

def forgedMedia : Datagram := forged [0x80, 0, 0, 1, 0, 0, 0, 160, 1, 2, 3, 4, 0xFF, 0xFF]

def forgedDigit : Datagram :=
  forged [0x80, 0xE5, 0, 1, 0, 0, 0, 160, 1, 2, 3, 4, 5, 0x80, 0x03, 0x20]

/-- Nothing comes of ten forged packets of media but the tenth call's failure. -/
theorem refused_datagram_harmless_media :
    let log := (run (recvStep securedConfig) (recvStart default)
      (List.replicate 10 (.read true false [forgedMedia]))).log
    let x : Received := ⟨forgedMedia, .rejected, 0⟩
    RecvEvent.yielded (some x) 14 .failure 10 ∈ log ∧ RecvEvent.eaten (some x) ∉ log := by
  refine ⟨by decide +kernel, ?_⟩
  have noPlc : ∀ op ∈ List.replicate 10 (RecvOp.read true false [forgedMedia]), op.NoPlc := by
    intro op member
    rw [eq_of_mem_replicate member]
    rfl
  have harmless := refused_datagram_harmless securedConfig_protected default noPlc
    (x := ⟨forgedMedia, .rejected, 0⟩) Verdict.noConfusion
  exact (harmless.2 (by decide) (by decide)).1

def forgedNoise : Datagram := forged [0x80, 13, 0, 1, 0, 0, 0, 160, 1, 2, 3, 4, 65, 0]

/-- **What passes without being accepted**: a telephone event gives its length to the caller, and a
digit is queued; so do the digits of a flush, which is not looked at; comfort noise gives its length;
and so does any packet where `SFF_PLC` is set, or for a session with `PROXY_MEDIA`. -/
theorem forged_datagrams_pass :
    (run (recvStep securedConfig) (recvStart default)
      [.read true false [forgedDigit], .handle true]).log =
      [.yielded (some ⟨forgedDigit, .rejected, 101⟩) 16 .success 0,
        .digit (some ⟨forgedDigit, .rejected, 101⟩) ⟨'5', 800⟩] ∧
    (recvStep securedConfig (recvStart default) (.flush true [forgedDigit])).log =
      [.digit (some ⟨forgedDigit, .unchecked, 101⟩) ⟨'5', 800⟩] ∧
    (recvStep securedConfig (recvStart default) (.read true false [forgedNoise])).log =
      [.yielded (some ⟨forgedNoise, .rejected, 13⟩) 14 .success 0] ∧
    (recvStep securedConfig (recvStart default) (.read true true [forgedMedia])).log =
      [.yielded (some ⟨forgedMedia, .unchecked, 0⟩) 14 .success 0] ∧
    (recvStep { securedConfig with proxyMedia := true } (recvStart default)
      (.read true false [forgedMedia])).log =
      [.yielded (some ⟨forgedMedia, .unchecked, 0⟩) 14 .success 0] := by
  decide +kernel

end FreeSwitch
