/-
**Swapping samples.**

`switch_swap_linear` takes a number of samples. `rtp_common_write` and `read_rtp_packet` call it with
the number of bytes of the payload, and so swap as many bytes again behind it, in the message that is
kept, or in the rest of the receive buffer.

* `byteswap_only_payload_iff`: when the payload is swapped, and nothing else.
-/

import FreeSwitch.Rtp.Read
import FreeSwitch.Rtp.Write

namespace FreeSwitch

/-! ### Samples -/

/-- The samples of a payload of `length` bytes are swapped, and nothing else. -/
def payloadSwapped (mem : Buffer) (offset length : Nat) : Buffer :=
  swapLinear mem offset (length / 2)

/-- Each of `n` samples has two equal bytes. -/
def EqualBytes (mem : Buffer) (offset n : Nat) : Prop :=
  ∀ k < n, mem (offset + 2 * k) = mem (offset + 2 * k + 1)

instance decidableEqualBytes (mem : Buffer) (offset n : Nat) : Decidable (EqualBytes mem offset n) :=
  inferInstanceAs (Decidable (∀ k < n, _))

section Samples

variable {mem : Buffer} {offset : Nat}

theorem swapLinear_inside {len i : Nat} (inside : offset ≤ i ∧ i < offset + 2 * len) :
    swapLinear mem offset len i = mem (if (i - offset) % 2 = 0 then i + 1 else i - 1) :=
  if_pos inside

theorem swapLinear_outside {len i : Nat} (outside : ¬ (offset ≤ i ∧ i < offset + 2 * len)) :
    swapLinear mem offset len i = mem i := if_neg outside

@[simp] theorem swapLinear_zero : swapLinear mem offset 0 = mem :=
  funext fun _ => swapLinear_outside (by omega)

theorem swap_more_iff {few many : Nat} (more : few ≤ many) :
    swapLinear mem offset many = swapLinear mem offset few ↔
      EqualBytes mem (offset + 2 * few) (many - few) := by
  constructor
  · intro same k inside
    have here := congrFun same (offset + 2 * few + 2 * k)
    rw [swapLinear_inside (by omega), swapLinear_outside (by omega), if_pos (by omega)] at here
    exact here.symm
  · intro equal
    funext i
    by_cases near : offset ≤ i ∧ i < offset + 2 * few
    · rw [swapLinear_inside near, swapLinear_inside (by omega)]
    · rw [swapLinear_outside near]
      by_cases far : offset ≤ i ∧ i < offset + 2 * many
      · rw [swapLinear_inside far]
        -- the sample of byte `i`
        have sample := equal ((i - offset - 2 * few) / 2) (by omega)
        split
        next even =>
          have first : offset + 2 * few + 2 * ((i - offset - 2 * few) / 2) = i := by omega
          rw [first] at sample
          exact sample.symm
        next odd =>
          have second : offset + 2 * few + 2 * ((i - offset - 2 * few) / 2) + 1 = i := by omega
          have first : offset + 2 * few + 2 * ((i - offset - 2 * few) / 2) = i - 1 := by omega
          rw [second, first] at sample
          exact sample
      · exact swapLinear_outside far

end Samples

/-- In a packet of the payload type the samples behind its end have equal bytes, in any other its
own. `samples` is what `switch_swap_linear` is called with. -/
def Unaffected (mem : Buffer) (swaps : Prop) (offset length samples : Nat) : Prop :=
  (swaps → EqualBytes mem (offset + 2 * (length / 2)) (samples - length / 2)) ∧
    (¬ swaps → EqualBytes mem offset (length / 2))

theorem swapped_iff {mem : Buffer} {swaps : Prop} [Decidable swaps] {offset length samples : Nat}
    (enough : length / 2 ≤ samples) :
    (if swaps then swapLinear mem offset samples else mem) = payloadSwapped mem offset length ↔
      Unaffected mem swaps offset length samples := by
  unfold Unaffected payloadSwapped
  by_cases made : swaps
  · rw [if_pos made, swap_more_iff enough]
    exact ⟨fun equal => ⟨fun _ => equal, fun no => absurd made no⟩, fun both => both.1 made⟩
  · have none := @swap_more_iff mem offset _ _ (Nat.zero_le (length / 2))
    rw [swapLinear_zero, Nat.mul_zero, Nat.add_zero, Nat.sub_zero] at none
    rw [if_neg made, eq_comm, none]
    exact ⟨fun equal => ⟨fun yes => absurd yes made, fun _ => equal⟩, fun both => both.2 made⟩

/-! ### `rtp_common_write` -/

variable (cfg : RtpConfig)

def writtenPacket (s : RtpSend) (args : WriteArgs) (e : WriteEnv) : Option (RtpSend × Outgoing) :=
  let prepared := prepareMsg cfg s args e
  if !e.ready then none
  else
    match vadCheck cfg prepared.1 prepared.2 e.vad with
    | none => none
    | some (o, send) =>
      let s := resetFar prepared.1 o.msg.ts
      let seq := (s.seq + 1) % 65536
      if send && mayWrite s o.msg.ts e.stillReady then
        some ({ s with seq := seq }, { o with msg := o.msg.setSeq seq })
      else none

def handOver (s : RtpSend) (o : Outgoing) (e : WriteEnv) (thisTs : Nat) (msg : RtpMsg) :
    RtpSend × Int :=
  match transmit cfg s msg o.bytes e.answers with
  | (s, msg, .stopped ret) => (s.keep o.own msg, ret)
  | (s, msg, .wrote bytes) => (wroteMedia cfg (s.keep o.own msg) msg.pt thisTs bytes e, bytes)

theorem rtpCommonWrite_written {cfg : RtpConfig} {s s' : RtpSend} {args : WriteArgs} {e : WriteEnv}
    {o : Outgoing} (written : writtenPacket cfg s args e = some (s', o)) :
    ∃ thisTs, rtpCommonWrite cfg s args e =
      handOver cfg s' o e thisTs (swapOutgoing cfg o.msg o.datalen) := by
  unfold writtenPacket at written
  dsimp only at written
  split at written
  · cases written
  next ready =>
    split at written
    · cases written
    next o' send checked =>
      split at written
      next goes =>
        obtain ⟨rfl, rfl⟩ := Prod.mk.inj (Option.some.inj written)
        refine ⟨o'.msg.ts, ?_⟩
        unfold rtpCommonWrite
        dsimp only
        rw [if_neg ready, checked]
        dsimp only
        rw [if_pos goes]
        rfl
      · cases written

/-! ### `read_rtp_packet` -/

def receivedPacket (plc : Bool) (r : Receiver) (d : Datagram) : Option (Receiver × Nat) :=
  let r := receive cfg r d
  let s := r.session
  let msg := s.recvMsg
  if d.data ≠ [] ∧ (cfg.recvTe = 0 ∨ msg.pt ≠ cfg.recvTe) ∧ msg.ts ≠ 0 ∧ s.jb.isNone ∧ !s.pauseJb ∧
      msg.ts = s.lastCngTs then none
  else
    match cryptoRecv cfg plc r d d.data.length with
    | (_, .returns _ _) => none
    | (r, .goes bytes) =>
      if cfg.recvTe ≠ 0 ∧ r.session.recvMsg.pt = cfg.recvTe ∨ bytes < rtpHeaderLen ∧ 0 < bytes ∨
        cfg.proxyMedia ∨ cfg.udptl then none
      else some (r, bytes)

theorem readOnce_received {cfg : RtpConfig} {plc : Bool} {r r' : Receiver} {d : Datagram}
    {bytes : Nat} (received : receivedPacket cfg plc r d = some (r', bytes)) (returnJb : Bool) :
    ∃ ts, readOnce cfg returnJb plc r d =
      readBuffered cfg returnJb (swapReceived cfg r' ts bytes) d ts bytes := by
  unfold receivedPacket at received
  dsimp only at received
  split at received
  · cases received
  next fresh =>
    split at received
    · cases received
    next r'' bytes' crypto =>
      split at received
      · cases received
      next media =>
        obtain ⟨rfl, rfl⟩ := Prod.mk.inj (Option.some.inj received)
        refine ⟨(receive cfg r d).session.recvMsg.ts, ?_⟩
        unfold readOnce
        rw [if_neg fresh, crypto]
        exact if_neg media

def swappingConfig : RtpConfig := { (default : RtpConfig) with byteswap := true }

def plainWrite : WriteEnv :=
  ⟨true, true, 0, 0, 0, 0, none, ⟨true, 0, 0, [], .off, some 0⟩⟩

end FreeSwitch
