/-
**The jitter buffer, from `stfu.c`.**

Packets go into the in queue; when it is full the three queues change roles, and frames are read
from the out queue, in the order of their timestamps. All three arrays are searched whole, so frames
of earlier rounds may still be found.

* `Stfu`: the instance; counters that are only counted or logged are left out;
* `addData`, `readAFrame`, `resize`, `sync`, `reset`: the calls; an access outside an array, a
  failed assertion or a call that never returns is a `Fault`.

`realloc` and `calloc` are taken to have memory.
-/

import FreeSwitch.Lib.Scan
import FreeSwitch.Lib.Unsigned

namespace FreeSwitch

open Unsigned

/-! ### Data -/

inductive Fault
  | assertion
  | outOfBounds
  | endless
  | divisionByZero
  deriving DecidableEq, Repr

def stfuDatalen : Nat := 16384

/-- `struct stfu_frame`. -/
structure StfuFrame where
  ts : Nat
  seq : Nat
  pt : Nat
  data : List UInt8
  dlen : Nat
  wasRead : Bool
  plc : Bool

def StfuFrame.zero : StfuFrame := ⟨0, 0, 0, List.replicate stfuDatalen 0, 0, false, false⟩

/-- `struct stfu_queue`: `array` is what is allocated. -/
structure StfuQueue where
  array : List StfuFrame
  intFrame : StfuFrame
  realArraySize : Nat
  arraySize : Nat
  arrayLen : Nat

inductive QueueName
  | a
  | b
  | c
  deriving DecidableEq, Repr

/-- `struct stfu_instance`; `debug` is set where there is a logger as well. Signed fields hold their
32 bits. -/
structure Stfu where
  queues : QueueName → StfuQueue
  inQueue : QueueName
  outQueue : QueueName
  oldQueue : QueueName
  curTs : Nat
  curSeq : Nat
  lastWrTs : Nat
  lastRdTs : Nat
  samplesPerPacket : Nat
  samplesPerSecond : Nat
  missCount : Nat
  maxPlc : Nat
  qlen : Nat
  maxQlen : Nat
  origQlen : Nat
  consecutiveGoodCount : Nat
  periodPacketInCount : Nat
  periodMissingCount : Nat
  periodCleanCount : Nat
  syncOut : Nat
  syncIn : Nat
  tsOffset : Nat
  tsDrift : Nat
  maxDrift : Nat
  driftDroppedPackets : Nat
  driftMaxDropped : Nat
  lastTsDiff : Nat
  sameTs : Nat
  periodTime : Nat
  decrementTime : Nat
  plcLen : Nat
  plcPt : Nat
  ready : Bool
  debug : Bool

/-- `stfu_status_t`. -/
inductive StfuStatus
  | itFailed
  | itWorked
  | imDone
  | itsTooLate
  deriving DecidableEq, Repr

/-- What `stfu_n_add_data` is called with. -/
structure StfuPacket where
  ts : UInt32
  seq : UInt16
  pt : UInt32
  data : List UInt8
  timerTs : UInt32
  last : Bool

/-! ### Queues -/

namespace StfuQueue

def initAqueue (qlen : Nat) : StfuQueue where
  array := List.replicate qlen .zero
  intFrame := { StfuFrame.zero with plc := true, data := List.replicate stfuDatalen 255 }
  realArraySize := qlen
  arraySize := qlen
  arrayLen := 0

/-- `stfu_n_resize_aqueue`: an array that is large enough is kept as it is. -/
def resizeAqueue (queue : StfuQueue) (qlen : Nat) : StfuQueue :=
  if qlen ≤ queue.realArraySize then
    { queue with
      arraySize := qlen
      arrayLen := if qlen < queue.arrayLen then qlen else queue.arrayLen }
  else
    -- everything behind `array_size` is zeroed, also what was allocated before
    { queue with
      array := queue.array.take queue.arraySize ++ List.replicate (qlen - queue.arraySize) .zero
      realArraySize := qlen
      arraySize := qlen }

end StfuQueue

namespace Stfu

variable (i : Stfu) (name : QueueName)

def setQueue (queue : StfuQueue) : Stfu :=
  { i with queues := Function.update i.queues name queue }

/-- Writes `array_len` of one queue. -/
def setLen (len : Nat) : Stfu :=
  i.setQueue name { i.queues name with arrayLen := len }

def setFrame (index : Nat) (frame : StfuFrame) : Stfu :=
  i.setQueue name { i.queues name with array := (i.queues name).array.set index frame }

/-! ### Setting up and resetting -/

def init (qlen maxQlen samplesPerPacket samplesPerSecond maxDriftMs : UInt32) (debug : Bool) :
    Except Fault Stfu :=
  if samplesPerPacket = 0 then .error .divisionByZero
  else
    let rate := if samplesPerSecond = 0 then 8000 else samplesPerSecond
    .ok
      { queues := fun _ => .initAqueue qlen.toNat
        inQueue := .a
        outQueue := .b
        oldQueue := .c
        curTs := 0
        curSeq := 0
        lastWrTs := 0
        lastRdTs := 0
        samplesPerPacket := samplesPerPacket.toNat
        samplesPerSecond := rate.toNat
        missCount := 0
        maxPlc := qlen.toNat / 2
        qlen := qlen.toNat
        maxQlen := maxQlen.toNat
        origQlen := qlen.toNat
        consecutiveGoodCount := 0
        periodPacketInCount := 0
        periodMissingCount := 0
        periodCleanCount := 0
        syncOut := 0
        syncIn := 0
        tsOffset := 0
        tsDrift := 0
        maxDrift := (-(maxDriftMs * (samplesPerSecond / 1000))).toNat
        driftDroppedPackets := 0
        driftMaxDropped :=
          if maxDriftMs = 0 then 0 else (samplesPerSecond * 2 / samplesPerPacket).toNat
        lastTsDiff := 0
        sameTs := 0
        periodTime := (rate * 20 / samplesPerPacket).toNat
        decrementTime := (rate * 15 / samplesPerPacket).toNat
        plcLen := 0
        plcPt := 0
        ready := false
        debug := debug }

def resizeQueues (qlen : Nat) : Stfu :=
  { i with
    queues := fun name => (i.queues name).resizeAqueue qlen
    qlen := qlen
    maxPlc := 5 }

def resize (qlen : Nat) : Stfu × StfuStatus :=
  if i.qlen = i.maxQlen then (i, .itFailed)
  else if i.maxQlen ≠ 0 ∧ i.maxQlen < qlen then
    if i.qlen < i.maxQlen then (i.resizeQueues i.maxQlen, .itWorked) else (i, .itFailed)
  else (i.resizeQueues qlen, .itWorked)

def resetCounters (i : Stfu) : Stfu :=
  { i with
    consecutiveGoodCount := 0
    periodCleanCount := 0
    periodPacketInCount := 0
    periodMissingCount := 0 }

/-- `stfu_n_reset`. It calls `stfu_n_sync (i, 1)`, which calls it again when there is no frame,
without end. -/
def reset (i : Stfu) : Except Fault Stfu :=
  if i.qlen < 1 then .error .endless
  else
    .ok { (((i.setLen .a 0).setLen .b 0).resetCounters) with
      ready := false
      inQueue := .a
      outQueue := .b
      oldQueue := .c
      syncOut := 1
      syncIn := 1
      curTs := 0
      curSeq := 0
      lastWrTs := 0
      lastRdTs := 0
      missCount := 0 }

def sync (packets : Nat) : Except Fault Stfu :=
  if i.qlen < packets then i.reset else .ok { i with syncOut := packets, syncIn := packets }

def swap (i : Stfu) : Stfu :=
  { i.setLen i.oldQueue 0 with
    ready := true
    inQueue := i.oldQueue
    outQueue := i.inQueue
    oldQueue := i.outQueue
    missCount := 0 }

/-! ### Adding a packet -/

def signed (bits : Nat) : Int := if bits < 2 ^ 31 then bits else (bits : Int) - 2 ^ 32

/-- The samples of a packet, learnt from the timestamps where not given; whether the call goes on.
-/
def learn (ts : Nat) : Stfu × Bool :=
  if i.samplesPerPacket = 0 ∧ ts ≠ 0 ∧ i.lastRdTs ≠ 0 then
    let tsDiff := sub 32 ts i.lastRdTs
    let sameTs := if i.lastTsDiff = tsDiff then add 32 i.sameTs 1 else 0
    let learnt := i.lastTsDiff = tsDiff ∧ sameTs = 5
    let samples := if learnt then tsDiff else i.samplesPerPacket
    let i := { i with
      samplesPerPacket := samples
      driftMaxDropped :=
        if learnt ∧ i.maxDrift ≠ 0 ∧ samples ≠ 0 then i.samplesPerSecond * 2 % 2 ^ 32 / samples
        else i.driftMaxDropped
      sameTs := sameTs
      lastTsDiff := tsDiff }
    if i.samplesPerPacket = 0 then ({ i with lastRdTs := ts }, false) else (i, true)
  else (i, true)

def measure (ts timerTs : Nat) : Stfu :=
  let fresh := sub 32 timerTs ts
  let offset := if ts ≠ 0 ∧ i.tsOffset = 0 then fresh else i.tsOffset
  let ahead := offset ≠ 0 ∧ 0 < signed (add 32 ts (sub 32 offset timerTs))
  let offset := if ahead then fresh else offset
  { i with
    tsOffset := offset
    tsDrift := add 32 ts (sub 32 offset timerTs) }

def drift (ts timerTs : Nat) : Stfu × Bool :=
  if timerTs = 0 then (i, true)
  else
    let i := i.measure ts timerTs
    if i.maxDrift = 0 then (i, true)
    else if signed i.tsDrift < signed i.maxDrift then
      let dropped := add 32 i.driftDroppedPackets 1
      ({ i with driftDroppedPackets := dropped }, ¬ dropped < i.driftMaxDropped)
    else ({ i with driftDroppedPackets := 0 }, true)

def inTime (ts : Nat) : Bool :=
  i.lastWrTs = 0 ∨ ¬ (ts ≤ i.lastWrTs ∧ (i.lastWrTs ≠ 2 ^ 32 - 1 ∨ ts = i.lastWrTs))

def goodTs (ts : Nat) : Bool :=
  (ts ≠ 0 ∧ ts = add 32 i.lastRdTs i.samplesPerPacket) ∨
    (4294900000 < i.lastRdTs ∧ ts < 5000)

def countLate (i : Stfu) : Stfu :=
  let queue := i.queues i.inQueue
  if queue.arrayLen < queue.arraySize then
    i.setLen i.inQueue (add 32 queue.arrayLen 1)
  else i

def count (good : Bool) : Stfu :=
  { i with
    periodCleanCount := if good then add 32 i.periodCleanCount 1 else i.periodCleanCount
    periodPacketInCount := add 32 i.periodPacketInCount 1 }

def adaptToLosses (i : Stfu) : Except Fault Stfu :=
  if i.qlen * 2 % 2 ^ 32 < i.periodMissingCount then
    .ok (i.resize (add 32 i.qlen 1)).1.resetCounters
  else if i.origQlen < i.qlen ∧
      (i.decrementTime < i.consecutiveGoodCount ∨ i.decrementTime < i.periodCleanCount) then
    let i := (i.resize (sub 32 i.qlen 1)).1.resetCounters
    i.sync i.qlen
  else .ok i

def adaptToPeriod (ts : Nat) : Except Fault Stfu :=
  -- `diff` and the log divide by the samples of a packet
  if i.samplesPerPacket = 0 ∧ (i.debug ∨ i.lastWrTs ≠ 0 ∧ (ts ≠ 0 ∨ 2 ^ 32 - 1001 < i.lastWrTs)) then
    .error .divisionByZero
  else if i.periodTime < i.periodPacketInCount then
    if i.periodMissingCount = 0 ∧ i.origQlen < i.qlen then
      let i := (i.resize (sub 32 i.qlen 1)).1
      (i.sync i.qlen).map resetCounters
    else .ok i.resetCounters
  else .ok i

def fill (frame : StfuFrame) (packet : StfuPacket) : StfuFrame :=
  { frame with
    data := packet.data.take stfuDatalen ++ frame.data.drop (min packet.data.length stfuDatalen)
    pt := packet.pt.toNat
    ts := packet.ts.toNat
    seq := packet.seq.toNat
    dlen := min packet.data.length stfuDatalen
    wasRead := false }

def swapIfFull (always : Bool) : Stfu :=
  if always ∨ (i.queues i.inQueue).arrayLen = (i.queues i.inQueue).arraySize then i.swap else i

def place (packet : StfuPacket) : Except Fault (Stfu × StfuStatus) :=
  let i := i.swapIfFull packet.last
  if packet.last then .ok (i, .imDone)
  else
    let name := i.inQueue
    let index := (i.queues name).arrayLen
    let i := i.setLen name (add 32 index 1)
    if ¬ index < (i.queues name).arraySize then .error .assertion
    else
      match (i.queues name).array[index]? with
      | none => .error .outOfBounds
      | some frame =>
        let i := i.swapIfFull false
        .ok ({ i.setFrame name index (fill frame packet) with lastRdTs := packet.ts.toNat },
          .itWorked)

def accept (packet : StfuPacket) (good : Bool) : Except Fault (Stfu × StfuStatus) := do
  let i ← (i.count good).adaptToLosses
  let i ← i.adaptToPeriod packet.ts.toNat
  i.place packet

def addData (packet : StfuPacket) : Except Fault (Stfu × StfuStatus) :=
  let ts := packet.ts.toNat
  match i.learn ts with
  | (i, false) => .ok (i, .itFailed)
  | (i, true) =>
    match i.drift ts packet.timerTs.toNat with
    | (i, false) => .ok (i, .itsTooLate)
    | (i, true) =>
      if i.syncIn ≠ 0 then { i with syncIn := 0 }.accept packet true
      else if i.inTime ts then i.accept packet (i.goodTs ts)
      else .ok (i.countLate, .itsTooLate)

/-! ### Reading a frame -/

def findBy (test : StfuFrame → Bool) (bound : Nat) : Except Fault (Stfu × Option StfuFrame) := do
  match ← Scan.scan .outOfBounds test (i.queues name).array bound 0 with
  | none => return (i, none)
  | some (index, frame) =>
    let frame := { frame with wasRead := true }
    return (i.setFrame name index frame, some frame)

def findAnyFrame (name : QueueName) : Except Fault (Stfu × Option StfuFrame) :=
  i.findBy name (fun frame => !frame.wasRead) (i.queues name).realArraySize

/-- The frames that `stfu_n_find_frame` looks for. -/
def wanted (minTs maxTs : Nat) (frame : StfuFrame) : Bool :=
  frame.ts = maxTs ∨ (minTs < frame.ts ∧ frame.ts < maxTs)

def findFrame (minTs maxTs : Nat) : Except Fault (Stfu × Option StfuFrame) :=
  i.findBy name (wanted minTs maxTs) (i.queues name).arraySize

/-- The timestamp read next: that of the first unread frame, or the next one. With a logger, a frame
that was read ends the call. -/
def advance (i : Stfu) : Except Fault (Option Stfu) :=
  if i.curTs = 0 ∧ i.lastWrTs < 1000 then do
    let out := i.queues i.outQueue
    match ← Scan.scan .outOfBounds (fun frame => !frame.wasRead || i.debug) out.array out.arrayLen 0 with
    | none => return some i
    | some (_, frame) =>
      if frame.wasRead then return none
      else return some { i with curTs := frame.ts, curSeq := frame.seq }
  else
    .ok (some { i with
      curTs := add 32 i.curTs i.samplesPerPacket
      curSeq := add 16 i.curSeq 1 })

def searchOthers (i : Stfu) : Except Fault (Stfu × Option StfuFrame) := do
  match ← i.findFrame i.inQueue i.lastWrTs i.curTs with
  | (i, some frame) => return (i, some frame)
  | (i, none) => i.findFrame i.oldQueue i.lastWrTs i.curTs

def search (i : Stfu) : Except Fault (Stfu × Option StfuFrame) := do
  match ← i.findFrame i.outQueue i.lastWrTs i.curTs with
  | (i, some frame) => return (i.setLen i.outQueue ((i.queues i.outQueue).arrayLen - 1), some frame)
  | (i, none) => i.searchOthers

def follow (i : Stfu) : Option StfuFrame → Stfu
  | some frame => { i with curTs := frame.ts, curSeq := frame.seq }
  | none => i

def resync (found : Option StfuFrame) : Except Fault (Stfu × Option StfuFrame) :=
  if i.syncOut = 0 then .ok (i, found)
  else
    match found with
    | some frame => .ok ({ i with syncOut := 0 }, some frame)
    | none => do
      let (i, any) ← i.findAnyFrame i.outQueue
      return ({ i.follow any with syncOut := 0 }, any)

def deliver (frame : StfuFrame) : Stfu :=
  { i with
    consecutiveGoodCount := add 32 i.consecutiveGoodCount 1
    lastWrTs := frame.ts
    missCount := 0
    plcLen := if frame.dlen ≠ 0 then frame.dlen else i.plcLen
    plcPt := frame.pt }

def logFrames (name : QueueName) : Except Fault Unit := do
  let _ ← Scan.scan .outOfBounds (fun _ => false) (i.queues name).array (i.queues name).arraySize 0
  return ()

def concealment (i : Stfu) : StfuFrame :=
  { (i.queues i.outQueue).intFrame with
    dlen := i.plcLen
    pt := i.plcPt
    ts := i.curTs
    seq := i.curSeq }

def substitute (i : Stfu) : Stfu :=
  { i.setQueue i.outQueue { i.queues i.outQueue with intFrame := i.concealment } with
    consecutiveGoodCount := 0
    lastWrTs := i.curTs
    missCount := add 32 i.missCount 1 }

def logMissing (i : Stfu) : Except Fault Unit :=
  if i.debug then do
    i.logFrames i.outQueue
    i.logFrames i.inQueue
  else .ok ()

/-- A frame is missing. When packets lag behind, or too many frames in a row are missing, the
instance is reset. -/
def miss (i : Stfu) : Except Fault (Stfu × Option StfuFrame) := do
  i.logMissing
  if signed (sub 32 i.lastRdTs i.curTs) < 0 then
    return (← i.reset, none)
  else if i.maxPlc < i.substitute.missCount then
    return (← i.substitute.reset, none)
  else return (i.substitute, some i.concealment)

def locate (i : Stfu) : Except Fault (Stfu × Option StfuFrame) := do
  let (i, found) ← i.search
  (i.follow found).resync found

def finish (found : Option StfuFrame) : Except Fault (Stfu × Option StfuFrame) :=
  if i.curTs = 0 then .ok (i, none)
  else
    match found with
    | some frame => .ok (i.deliver frame, some frame)
    | none => miss { i with periodMissingCount := add 32 i.periodMissingCount 1 }

def readAFrame (i : Stfu) : Except Fault (Stfu × Option StfuFrame) :=
  if i.samplesPerPacket = 0 ∨ i.ready = false then .ok (i, none)
  else do
    match ← i.advance with
    | none => return (i, none)
    | some i =>
      let (i, found) ← i.locate
      i.finish found

end Stfu

/-! ### Calls -/

inductive StfuCall
  | addData (packet : StfuPacket)
  | readAFrame
  | resize (qlen : UInt32)
  | sync (packets : UInt32)
  | reset

inductive StfuReply
  | status (status : StfuStatus)
  | frame (frame : Option StfuFrame)
  | nothing

def Stfu.call (i : Stfu) : StfuCall → Except Fault (Stfu × StfuReply)
  | .addData packet => (i.addData packet).map fun out => (out.1, .status out.2)
  | .readAFrame => i.readAFrame.map fun out => (out.1, .frame out.2)
  | .resize qlen => .ok ((i.resize qlen.toNat).1, .status (i.resize qlen.toNat).2)
  | .sync packets => (i.sync packets.toNat).map fun i => (i, .status .itWorked)
  | .reset => i.reset.map fun i => (i, .nothing)

end FreeSwitch
