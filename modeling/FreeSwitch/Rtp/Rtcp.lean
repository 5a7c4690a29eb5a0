/-
**Sender reports.**

`switch_rtcp_zerocopy_read_frame` looks for the report blocks behind `struct switch_rtcp_senderinfo`. As
`check_srtp_and_ice` writes a whole packet through this structure, it contains a report block and a
description of the source besides the sender's six words.

* `sender_report_read_iff`: the sender's words are read back, report blocks never are.
-/

import FreeSwitch.Rtp.Session

namespace FreeSwitch

open Buffer List UInt8

/-! ### Reports -/

@[ext]
structure SenderInfo where
  ssrc : UInt32
  ntpMsw : UInt32
  ntpLsw : UInt32
  ts : UInt32
  pc : UInt32
  oc : UInt32
  deriving DecidableEq

/-- `struct switch_rtcp_report_block_frame`. -/
structure ReportBlock where
  ssrc : UInt32
  fraction : UInt8
  lost : UInt32
  highestSequenceNumberReceived : UInt32
  jitter : UInt32
  lsr : UInt32
  dlsr : UInt32
  deriving DecidableEq

/-- `switch_rtcp_frame_t`, as far as it is filled in. -/
structure RtcpFrame where
  reportCount : Nat
  packetType : Nat
  info : SenderInfo
  reports : List ReportBlock
  deriving DecidableEq

def wire (n : UInt32) : List UInt8 := be32Bytes n.toNat

def SenderInfo.bytes (i : SenderInfo) : List UInt8 :=
  [i.ssrc, i.ntpMsw, i.ntpLsw, i.ts, i.pc, i.oc].flatMap wire

def ReportBlock.bytes (b : ReportBlock) : List UInt8 :=
  wire b.ssrc ++ [b.fraction] ++ (wire b.lost).drop 1 ++ wire b.highestSequenceNumberReceived ++
    wire b.jitter ++ wire b.lsr ++ wire b.dlsr

structure SenderReport where
  info : SenderInfo
  blocks : List ReportBlock
  lost_lt : ∀ b ∈ blocks, b.lost.toNat < 2 ^ 24

namespace SenderReport

def bytes (r : SenderReport) : List UInt8 :=
  [ofNat (0x80 + r.blocks.length % 32), 200] ++ be16Bytes (6 + 6 * r.blocks.length) ++
    (r.info.bytes ++ r.blocks.flatMap ReportBlock.bytes)

def frame (r : SenderReport) : RtcpFrame := ⟨r.blocks.length, 200, r.info, r.blocks⟩

end SenderReport

/-! ### Reading -/

/-- The fields of `struct switch_rtp` that reading reports uses. -/
structure RtcpRecv where
  enableRtcp : Bool
  rtcpFreshFrame : Bool
  /-- `rtcp_recv_msg`: the header and the body. -/
  rtcpRecvMsg : Buffer

inductive RtcpStatus
  | success
  | false
  | timeout
  deriving DecidableEq

/-- `read_rtcp_packet` without SRTP and ZRTP, when a datagram arrives. -/
def readRtcpPacket (s : RtcpRecv) (data : List UInt8) : RtcpRecv :=
  if !s.enableRtcp then s
  else
    let mem := s.rtcpRecvMsg.write 0 data
    { s with
      rtcpRecvMsg := mem
      rtcpFreshFrame := s.rtcpFreshFrame || data ≠ [] && (mem 0).toNat / 64 == 2 && mem 1 == 200 }

def loadWord (mem : Buffer) (o : Nat) : UInt32 := UInt32.ofNat (mem.be32 o)

def ntohl (n : Nat) : Nat :=
  n % 256 * 2 ^ 24 + n / 256 % 256 * 2 ^ 16 + n / 65536 % 256 * 256 + n / 2 ^ 24 % 256

/-- A field `int lost :24` behind eight bits, as 32 bits. -/
def signed24 (mem : Buffer) (o : Nat) : Nat :=
  let raw := (mem o).toNat + (mem (o + 1)).toNat * 256 + (mem (o + 2)).toNat * 65536
  if raw < 2 ^ 23 then raw else raw + 0xFF000000

/-- A `struct switch_rtcp_report_block`. -/
def readBlock (mem : Buffer) (o : Nat) : ReportBlock where
  ssrc := loadWord mem o
  fraction := ofNat (ntohl (mem (o + 4)).toNat)
  lost := UInt32.ofNat (ntohl (signed24 mem (o + 5)))
  highestSequenceNumberReceived := loadWord mem (o + 8)
  jitter := loadWord mem (o + 12)
  lsr := loadWord mem (o + 16)
  dlsr := loadWord mem (o + 20)

/-- `sizeof(switch_rtcp_hdr_t)`. -/
def rtcpHeaderLen : Nat := 4

/-- `sizeof(struct switch_rtcp_senderinfo)`: six words, the source, the head of the description, and its
trunk with two bytes of padding or text. -/
def senderinfoLen : Nat := 24 + 24 + 4 + 8

/-- `sizeof(struct switch_rtcp_report_block)`. -/
def reportBlockLen : Nat := 24

def maxReportBlocks : Nat := 5

/-- The loop over the blocks, from an offset into the body; the frame has `room` left. -/
def readReports (mem : Buffer) (packetLength : Nat) : Nat → Nat → List ReportBlock
  | 0, _ => []
  | room + 1, offset =>
    if offset < packetLength then
      readBlock mem (rtcpHeaderLen + offset) :: readReports mem packetLength room (offset + reportBlockLen)
    else []

def readInfo (mem : Buffer) : SenderInfo :=
  ⟨loadWord mem 4, loadWord mem 8, loadWord mem 12, loadWord mem 16, loadWord mem 20, loadWord mem 24⟩

/-- **`switch_rtcp_zerocopy_read_frame`.** -/
def rtcpZerocopyReadFrame (s : RtcpRecv) : RtcpRecv × RtcpStatus × Option RtcpFrame :=
  if !s.enableRtcp then (s, .false, none)
  else if s.rtcpFreshFrame then
    let mem := s.rtcpRecvMsg
    let packetLength := (mem.be16 2 + 1) * 4 - rtcpHeaderLen
    let reports := readReports mem packetLength maxReportBlocks senderinfoLen
    ({ s with rtcpFreshFrame := false }, .success,
      some ⟨reports.length, (mem 1).toNat, readInfo mem, reports⟩)
  else (s, .timeout, none)

def readBack (fresh : Bool) (mem : Buffer) (data : List UInt8) : RtcpStatus × Option RtcpFrame :=
  (rtcpZerocopyReadFrame (readRtcpPacket ⟨true, fresh, mem⟩ data)).2

/-! ### Writing -/

/-- What `check_srtp_and_ice` writes a sender report from. -/
structure ReportSource where
  ssrc : UInt32
  /-- `send_time`, or the time now if it is 0. -/
  whenSent : Nat
  /-- The microseconds of `send_time` times 4294.967296, as the double product. -/
  ntpLsw : UInt32
  lastWriteTs : UInt32
  packetCount : Nat
  rawBytes : Nat
  peerSsrc : UInt32
  skipPacketCount : UInt32
  /-- `recv_msg.header.seq`, in the order of the network. -/
  seq : UInt16
  /-- The address that `switch_get_addr` writes into 30 bytes. -/
  cname : List UInt8
  cname_lt : cname.length < 30
  stale : UInt8

namespace ReportSource

def info (w : ReportSource) : SenderInfo where
  ssrc := w.ssrc
  ntpMsw := UInt32.ofNat (w.whenSent / 1000000 + 2208988800)
  ntpLsw := w.ntpLsw
  ts := w.lastWriteTs
  pc := UInt32.ofNat w.packetCount
  oc := UInt32.ofNat ((w.rawBytes + 2 ^ 64 - w.packetCount * 12 % 2 ^ 64) % 2 ^ 64)

def block (w : ReportSource) : ReportBlock :=
  ⟨w.peerSsrc, 0, w.skipPacketCount, UInt32.ofNat w.seq.toNat, 0, 0, 0⟩

/-- The block that is written; of the losses three bytes, as `htonl` is cut to 24 bits. -/
def blockBytes (w : ReportSource) : List UInt8 :=
  wire w.peerSsrc ++ ([0] ++ (wire w.skipPacketCount).take 3 ++ wire (UInt32.ofNat w.seq.toNat) ++
    wire 0 ++ wire 0 ++ wire 0)

def description (w : ReportSource) : List UInt8 :=
  [0x81, 202] ++ be16Bytes 5 ++ wire w.ssrc ++ [1, ofNat w.cname.length] ++ w.cname ++ [w.stale]

/-- **The sender report of `check_srtp_and_ice`**, when packets have been received. -/
def writeSenderReport (w : ReportSource) : List UInt8 :=
  let rtcpBytes := rtcpHeaderLen + senderinfoLen + w.cname.length - 1
  [0x81, 200] ++ be16Bytes (rtcpBytes / 4 - 1) ++ (w.info.bytes ++ (w.blockBytes ++ w.description))

def frame (w : ReportSource) : RtcpFrame := ⟨1, 200, w.info, [w.block]⟩

end ReportSource

/-! ### What is read back -/

section Read

variable {mem : Buffer} {data : List UInt8}

theorem readReports_length (mem : Buffer) (packetLength room offset : Nat) :
    (readReports mem packetLength room offset).length = min room ((packetLength - offset + 23) / 24) := by
  induction room generalizing offset with
  | zero => simp [readReports]
  | succ room ih =>
    unfold readReports
    split
    · rw [length_cons, ih, reportBlockLen]
      omega
    · rw [length_nil]
      omega

theorem write_at {i : Nat} (inside : i < data.length) (mem : Buffer) :
    mem.write 0 data i = data.getD i 0 :=
  if_pos ⟨Nat.zero_le i, by rwa [Nat.zero_add]⟩

theorem loadWord_write (mem : Buffer) (front back : List UInt8) (v : UInt32) :
    loadWord (mem.write 0 (front ++ (wire v ++ back))) front.length = v := by
  have byte (j : Nat) (small : j < 4) :
      mem.write 0 (front ++ (wire v ++ back)) (front.length + j) = (wire v).getD j 0 := by
    have length : (wire v).length = 4 := rfl
    rw [write_at (by simp only [length_append, length]; omega),
      getD_append_right _ _ _ _ (Nat.le_add_right _ _), Nat.add_sub_cancel_left,
      getD_append _ _ _ _ (length.symm ▸ small)]
  have first : mem.write 0 (front ++ (wire v ++ back)) front.length = (wire v).getD 0 0 :=
    byte 0 (by decide)
  unfold loadWord be32 be16
  rw [Nat.add_assoc, first, byte 1 (by decide), byte 2 (by decide), byte 3 (by decide)]
  exact (congrArg UInt32.ofNat (be32Bytes_toNat v.toNat_lt)).trans UInt32.ofNat_toNat

theorem loadWord_words (mem : Buffer) (front rest : List UInt8) (words : List UInt32) (k : Nat)
    (inside : k < words.length) :
    loadWord (mem.write 0 (front ++ (words.flatMap wire ++ rest))) (front.length + 4 * k) = words[k] := by
  induction words generalizing front k with
  | nil => exact absurd inside (Nat.not_lt_zero k)
  | cons w words ih =>
    rw [flatMap_cons, append_assoc]
    cases k with
    | zero => exact loadWord_write mem front _ w
    | succ k =>
      have later := ih (front ++ wire w) k (Nat.lt_of_succ_lt_succ inside)
      have offset : (front ++ wire w).length + 4 * k = front.length + 4 * (k + 1) := by
        rw [length_append, show (wire w).length = 4 from rfl]
        omega
      rw [offset, append_assoc] at later
      exact later

theorem readInfo_write (mem : Buffer) (a b c d : UInt8) (i : SenderInfo) (rest : List UInt8) :
    readInfo (mem.write 0 ([a, b, c, d] ++ (i.bytes ++ rest))) = i := by
  have words := loadWord_words mem [a, b, c, d] rest [i.ssrc, i.ntpMsw, i.ntpLsw, i.ts, i.pc, i.oc]
  exact SenderInfo.ext (words 0 (by simp)) (words 1 (by simp)) (words 2 (by simp)) (words 3 (by simp))
    (words 4 (by simp)) (words 5 (by simp))

theorem readBack_eq (fresh : Bool) (mem : Buffer) {a : UInt8} (version : a.toNat / 64 = 2) (length : Nat)
    (i : SenderInfo) (rest : List UInt8) :
    let data := [a, 200] ++ be16Bytes length ++ (i.bytes ++ rest)
    let reports := readReports (mem.write 0 data) ((length % 65536 + 1) * 4 - 4) maxReportBlocks senderinfoLen
    readBack fresh mem data = (.success, some ⟨reports.length, 200, i, reports⟩) := by
  intro data reports
  have header : data = [a, 200, ofNat (length / 256), ofNat length] ++ (i.bytes ++ rest) := rfl
  have byte (k : Nat) (small : k < 4) : mem.write 0 data k =
      [a, 200, ofNat (length / 256), ofNat length].getD k 0 := by
    rw [header, write_at (Nat.lt_of_lt_of_le small (by simp)), getD_append _ _ _ _ small]
  have words : (mem.write 0 data).be16 2 = length % 65536 := by
    rw [be16, byte 2 (by decide), byte 3 (by decide)]
    change (ofNat (length / 256)).toNat * 256 + (ofNat length).toNat = _
    rw [toNat_ofNat', toNat_ofNat']
    omega
  have info : readInfo (mem.write 0 data) = i := readInfo_write ..
  have kind : mem.write 0 data 1 = 200 := byte 1 (by decide)
  have first : (mem.write 0 data 0).toNat / 64 = 2 := byte 0 (by decide) ▸ version
  have filled : data ≠ [] := cons_ne_nil _ _
  simp [readBack, readRtcpPacket, rtcpZerocopyReadFrame, words, info, kind, first, filled, reports,
    rtcpHeaderLen]

theorem write_behind (mem : Buffer) {front back : List UInt8} {i : Nat} (behind : front.length + 4 ≤ i)
    (v v' : UInt32) :
    mem.write 0 (front ++ (wire v ++ back)) i = mem.write 0 (front ++ (wire v' ++ back)) i := by
  have length (v : UInt32) : (wire v).length = 4 := rfl
  have part (v : UInt32) : (front ++ (wire v ++ back)).getD i 0 = back.getD (i - front.length - 4) 0 := by
    rw [getD_append_right _ _ _ _ (by omega), getD_append_right _ _ _ _ (by rw [length]; omega), length]
  unfold write
  simp only [length_append, length, Nat.sub_zero, part]

theorem loadWord_behind (mem : Buffer) {front back : List UInt8} {o : Nat} (behind : front.length + 4 ≤ o)
    (v v' : UInt32) : loadWord (mem.write 0 (front ++ (wire v ++ back))) o =
      loadWord (mem.write 0 (front ++ (wire v' ++ back))) o := by
  unfold loadWord be32 be16
  rw [write_behind mem behind v v', write_behind mem (by omega) v v', write_behind mem (by omega) v v',
    write_behind mem (by omega) v v']

theorem ReportSource.writeSenderReport_split (w : ReportSource) : ∃ front rest, front.length = 28 ∧
    ∀ peer, { w with peerSsrc := peer }.writeSenderReport = front ++ (wire peer ++ rest) := by
  refine ⟨[0x81, 200] ++ be16Bytes ((rtcpHeaderLen + senderinfoLen + w.cname.length - 1) / 4 - 1) ++
    w.info.bytes, w.blockBytes.drop 4 ++ w.description, rfl, fun peer => ?_⟩
  simp only [writeSenderReport, blockBytes, append_assoc]
  rfl

theorem readReports_ssrc {packetLength : Nat} {b : ReportBlock}
    (one : readReports mem packetLength maxReportBlocks senderinfoLen = [b]) : loadWord mem 64 = b.ssrc := by
  unfold maxReportBlocks readReports at one
  split at one
  · exact congrArg ReportBlock.ssrc (List.cons.inj one).1
  · exact absurd one (by simp)

end Read

/-- **Sender reports** are read without their blocks. Whatever packets follow in the datagram and whatever
the buffer held, a report is read as it is exactly if it has no report block; of what `check_srtp_and_ice`
writes, the sender's words are read, and not every block. -/
theorem sender_report_read_iff (fresh : Bool) (mem : Buffer) :
    (∀ (r : SenderReport) (more : List UInt8),
      readBack fresh mem (r.bytes ++ more) = (.success, some r.frame) ↔ r.blocks = []) ∧
    ∀ w : ReportSource,
      (∃ count reports, readBack fresh mem w.writeSenderReport =
        (.success, some ⟨count, 200, w.info, reports⟩)) ∧
      ∃ peer, readBack fresh mem { w with peerSsrc := peer }.writeSenderReport ≠
        (.success, some { w with peerSsrc := peer }.frame) := by
  refine ⟨fun r more => ?_, fun w => ⟨⟨_, _, readBack_eq fresh mem (by decide) _ w.info _⟩, ?_⟩⟩
  · have version : (ofNat (0x80 + r.blocks.length % 32)).toNat / 64 = 2 := by
      rw [toNat_ofNat']
      omega
    have split : r.bytes ++ more = [ofNat (0x80 + r.blocks.length % 32), 200] ++
        be16Bytes (6 + 6 * r.blocks.length) ++
          (r.info.bytes ++ (r.blocks.flatMap ReportBlock.bytes ++ more)) := by
      simp only [SenderReport.bytes, append_assoc]
    rw [split, readBack_eq fresh mem version, ← length_eq_zero_iff]
    constructor
    · intro same
      have counts : min maxReportBlocks _ = r.blocks.length :=
        (readReports_length ..).symm.trans (congrArg (fun f => (f.2.map RtcpFrame.reportCount).getD 0) same)
      simp only [maxReportBlocks, senderinfoLen] at counts
      omega
    · intro none
      have none : r.blocks = [] := length_eq_zero_iff.mp none
      simp [SenderReport.frame, none, readReports, maxReportBlocks, senderinfoLen]
  · by_contra always
    have back : ∀ peer, readBack fresh mem { w with peerSsrc := peer }.writeSenderReport =
      (.success, some { w with peerSsrc := peer }.frame) := by simpa using always
    have seen (peer : UInt32) : loadWord (mem.write 0 { w with peerSsrc := peer }.writeSenderReport) 64 =
        peer := by
      have same := (readBack_eq fresh mem (by decide) _ w.info _).symm.trans (back peer)
      exact readReports_ssrc (congrArg (fun f => (f.2.map RtcpFrame.reports).getD []) same)
    obtain ⟨front, rest, length, split⟩ := w.writeSenderReport_split
    have first := seen 0
    have second := seen 1
    rw [split] at first second
    have apart := first.symm.trans ((loadWord_behind mem (by omega) 0 1).trans second)
    exact absurd apart (by decide)

def oneBlock : SenderReport :=
  ⟨⟨1, 2, 3, 4, 5, 6⟩, [⟨7, 8, 9, 10, 11, 12, 13⟩], by decide⟩

theorem report_block_lost : oneBlock.blocks.length ≤ maxReportBlocks ∧
    readBack false (fun _ => 0) oneBlock.bytes = (.success, some ⟨0, 200, oneBlock.info, []⟩) ∧
    oneBlock.frame.reports ≠ [] := by
  decide +kernel

end FreeSwitch
