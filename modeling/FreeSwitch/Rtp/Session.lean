/-
**RTP messages and sessions.**

A message buffer is a memory of bytes, since a datagram only overwrites as many of them as it has;
the fields of the RTP header are read from and written to it as they are on the wire. The session
has a part that the functions of this development never change (`RtpConfig`) and a part that they do
(`RtpRecv`).
-/

import Mathlib

namespace FreeSwitch

open UInt8

/-! ### Buffers -/

abbrev Buffer := Nat → UInt8

variable (mem : Buffer)

def Buffer.write (offset : Nat) (data : List UInt8) : Buffer := fun i =>
  if offset ≤ i ∧ i < offset + data.length then data.getD (i - offset) 0 else mem i

def Buffer.slice (offset length : Nat) : List UInt8 :=
  (List.range length).map fun i => mem (offset + i)

def Buffer.be16 (offset : Nat) : Nat :=
  (mem offset).toNat * 256 + (mem (offset + 1)).toNat

def Buffer.be32 (offset : Nat) : Nat :=
  mem.be16 offset * 65536 + mem.be16 (offset + 2)

def be16Bytes (n : Nat) : List UInt8 := [ofNat (n / 256), ofNat n]

def be32Bytes (n : Nat) : List UInt8 := be16Bytes (n / 65536) ++ be16Bytes n

theorem be16Bytes_toNat {n : Nat} (small : n < 2 ^ 16) :
    (ofNat (n / 256)).toNat * 256 + (ofNat n).toNat = n := by
  rw [toNat_ofNat', toNat_ofNat']
  omega

theorem be32Bytes_toNat {n : Nat} (small : n < 2 ^ 32) :
    ((ofNat (n / 65536 / 256)).toNat * 256 + (ofNat (n / 65536)).toNat) * 65536 +
      ((ofNat (n / 256)).toNat * 256 + (ofNat n).toNat) = n := by
  rw [be16Bytes_toNat (by omega)]
  simp only [toNat_ofNat']
  omega

/-- `switch_swap_linear`: the bytes of `len` samples of 16 bits are exchanged. -/
def swapLinear (offset len : Nat) : Buffer := fun i =>
  if offset ≤ i ∧ i < offset + 2 * len then
    mem (if (i - offset) % 2 = 0 then i + 1 else i - 1)
  else mem i

/-! ### Messages -/

def rtpHeaderLen : Nat := 12

/-- `rtp_msg_t`, with header and body in one buffer. Where `ebody` points behind a header extension,
`ext` is its length in words. -/
structure RtpMsg where
  mem : Buffer
  ext : Option Nat

namespace RtpMsg

/-- `header.version`. -/
def version (msg : RtpMsg) : Nat := (msg.mem 0).toNat / 64

/-- `header.x`. -/
def x (msg : RtpMsg) : Bool := (msg.mem 0).toNat / 16 % 2 == 1

/-- `header.m`. -/
def m (msg : RtpMsg) : Bool := (msg.mem 1).toNat / 128 == 1

/-- `header.pt`. -/
def pt (msg : RtpMsg) : Nat := (msg.mem 1).toNat % 128

/-- `ntohs(header.seq)`. -/
def seq (msg : RtpMsg) : Nat := msg.mem.be16 2

/-- `ntohl(header.ts)`. -/
def ts (msg : RtpMsg) : Nat := msg.mem.be32 4

variable (msg : RtpMsg)

def put (offset : Nat) (data : List UInt8) : RtpMsg :=
  { msg with mem := msg.mem.write offset data }

def setMPt (m : Bool) (pt : Nat) : RtpMsg :=
  msg.put 1 [ofNat ((if m then 128 else 0) + pt % 128)]

/-- Set `header.pt`. -/
def setPt (pt : Nat) : RtpMsg := msg.setMPt msg.m pt

/-- Set `header.m`. -/
def setM (m : Bool) : RtpMsg := msg.setMPt m msg.pt

/-- Set `header.seq`. -/
def setSeq (seq : Nat) : RtpMsg := msg.put 2 (be16Bytes seq)

/-- Set `header.ts`. -/
def setTs (ts : Nat) : RtpMsg := msg.put 4 (be32Bytes ts)

/-- Set `header.ssrc`. -/
def setSsrc (ssrc : Nat) : RtpMsg := msg.put 8 (be32Bytes ssrc)

/-- `RTP_BODY`: where the payload starts. -/
def body (msg : RtpMsg) : Nat :=
  rtpHeaderLen + msg.ext.elim 0 fun length => length * 4 + 4

theorem pt_put {msg : RtpMsg} {offset : Nat} (behind : 2 ≤ offset) (data : List UInt8) :
    (msg.put offset data).pt = msg.pt := by
  have byte : msg.mem.write offset data 1 = msg.mem 1 :=
    if_neg fun inside => absurd inside.1 (by omega)
  exact congrArg (fun byte : UInt8 => byte.toNat % 128) byte

theorem pt_setPt (pt : Nat) : (msg.setPt pt).pt = pt % 128 := by
  change (ofNat ((if msg.m then 128 else 0) + pt % 128)).toNat % 128 = pt % 128
  rw [toNat_ofNat']
  split <;> omega

theorem pt_swapLinear (len : Nat) :
    pt { msg with mem := swapLinear msg.mem msg.body len } = msg.pt := by
  have byte : swapLinear msg.mem msg.body len 1 = msg.mem 1 := by
    refine if_neg fun inside => absurd inside.1 ?_
    unfold body rtpHeaderLen
    omega
  exact congrArg (fun byte : UInt8 => byte.toNat % 128) byte

end RtpMsg

/-! ### Sessions -/

/-- A digit, `switch_dtmf_t`. -/
structure Dtmf where
  digit : Char
  duration : Nat
  deriving DecidableEq, Repr

/-- The set-up, with the flags `SWITCH_RTP_FLAG_*` and `RTP_BUG_*` by name; `iceUser` says whether
`ice.ice_user` is set. -/
structure RtpConfig where
  te : Nat
  recvTe : Nat
  cngPt : Nat
  payload : Nat
  rpayload : Nat
  samplesPerInterval : Nat
  samplesPerSecond : Nat
  msPerPacket : Nat
  interdigitDelay : Nat
  /-- `switch_core_min_dtmf_duration(0)`. -/
  minDtmfDuration : Nat
  /-- The payload type that `VAD` looks at, if it is set. -/
  vadPt : Option Nat
  iceUser : Bool
  proxyMedia : Bool
  udptl : Bool
  video : Bool
  secureRecv : Bool
  secureSend : Bool
  byteswap : Bool
  passRfc2833 : Bool
  useTimer : Bool
  autoCng : Bool
  googlehack : Bool
  ignoreDtmfDuration : Bool
  flushJbOnDtmf : Bool
  ignoreMarkBit : Bool
  neverSendMarker : Bool
  sendLinearTimestamps : Bool
  ciscoSkipMarkBit2833 : Bool
  sonusSendInvalidTimestamp2833 : Bool
  genOneGenAll : Bool
  changeSsrcOnMarker : Bool
  deriving Inhabited

/-- The incoming half of `struct switch_rtp_rfc2833_data`. -/
structure DtmfIn where
  inDigitSeq : Nat
  inDigitTs : Nat
  lastInDigitTs : Nat
  inDigitSanity : Nat
  inInterleaved : Bool
  lastDuration : Nat
  flip : Nat
  firstDigit : Char
  lastDigit : Char
  inDigitQueued : Bool
  /-- `dtmf_inqueue`. -/
  inqueue : List Dtmf

instance : Inhabited DtmfIn := ⟨⟨0, 0, 0, 0, false, 0, 0, '\x00', '\x00', false, []⟩⟩

/-- What ZRTP answers about a packet: `off` where `zrtp_on` is not set. -/
inductive ZrtpVerdict
  | off
  | ok (bytes : Nat)
  | drop
  | fail
  | other (bytes : Nat)
  deriving DecidableEq

/-- `stfu_n_read_a_frame` gives nothing, a frame it holds, or one it makes up. -/
inductive JbRead
  | none
  | held (i : Nat)
  | plc (data : List UInt8) (ts seq pt : Nat)
  deriving DecidableEq

/-- `switch_status_t` for reading; `pause` is `SWITCH_STATUS_BREAK`. -/
inductive ReadStatus
  | success
  | failure
  | pause
  deriving DecidableEq

/-- What `switch_socket_recvfrom` receives (nothing, if there is no byte), and what the libraries
answer about it. -/
structure Datagram where
  data : List UInt8
  /-- What `switch_socket_recvfrom` returns. -/
  status : ReadStatus
  zrtp : ZrtpVerdict
  /-- `srtp_create` succeeds. -/
  create : Bool
  /-- The status of `srtp_unprotect`, `0` if it succeeds. -/
  stat : Nat
  sbytes : Nat
  clear : List UInt8
  /-- `stfu_n_eat` returns `STFU_ITS_TOO_LATE`. -/
  tooLate : Bool
  jbRead : JbRead
  deriving DecidableEq

/-- What became of a datagram at `srtp_unprotect`. -/
inductive Verdict
  | unchecked
  | accepted
  | rejected
  deriving DecidableEq

def Verdict.ofStat (stat : Nat) : Verdict := if stat = 0 then .accepted else .rejected

structure Received where
  datagram : Datagram
  verdict : Verdict
  pt : Nat
  deriving DecidableEq

/-- A frame of the jitter buffer; `source`, the datagram it was cut from, is no part of the code's
frame. -/
structure JbFrame where
  data : List UInt8
  ts : Nat
  seq : Nat
  pt : Nat
  source : Option Received

structure RtpRecv where
  recvMsg : RtpMsg
  dtmf : DtmfIn
  passingDtmf : Nat
  srtpErrs : Nat
  secureRecvReset : Bool
  lastReadTs : Nat
  lastCngTs : Nat
  jb : Option (List JbFrame)
  pauseJb : Bool

instance : Inhabited RtpRecv := ⟨⟨⟨fun _ => 0, none⟩, default, 0, 0, false, 0, 0, none, false⟩⟩

end FreeSwitch
