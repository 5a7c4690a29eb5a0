/-
**Digits from one session to another.**

A session sends its queue of digits with `do_2833`; another one gets the datagrams in order and
without losses, and handles them with `handle_rfc2833`, while its application takes digits off its
queue (`ToneLine`).

* `digits_end_to_end`: the digits received are those requested, with the durations played;
* `short_digit_lengthened`: a digit requested for less than the least duration is received longer.
-/

import FreeSwitch.Rtp.Spoken

namespace FreeSwitch

open Hearing List Run TonePacket

/-! ### The timeout for sanity -/

/-- The counter for sanity is far from its end; every accepted packet sets it anew. -/
structure Steady (d : DtmfIn) : Prop where
  closed : d.inDigitTs = 0 → d.inDigitSanity = 0
  opened : d.inDigitTs ≠ 0 → 1999 ≤ d.inDigitSanity
  counted : d.inDigitTs ≠ 0 → d.inDigitSeq ≠ 0 → d.inDigitSanity = 2000

theorem Steady.calm {d : DtmfIn} (steady : Steady d) : d.inDigitSanity ≠ 1 := by
  by_cases closed : d.inDigitTs = 0
  · rw [steady.closed closed]
    decide
  · have far := steady.opened closed
    omega

theorem Steady.of_closed {d : DtmfIn} (closed : d.inDigitTs = 0) (zero : d.inDigitSanity = 0) :
    Steady d :=
  ⟨fun _ => zero, fun opened => absurd closed opened, fun opened => absurd closed opened⟩

theorem Steady.of_opened {d : DtmfIn} (opened : d.inDigitTs ≠ 0) (full : d.inDigitSanity = 2000) :
    Steady d :=
  ⟨fun closed => absurd closed opened, fun _ => by omega, fun _ _ => full⟩

section Sanity

variable {cfg : RtpConfig} {d : DtmfIn} {p : TonePacket}

theorem newEvent_sanity (hears : Hears cfg) (timed : p.ts.toNat ≠ 0)
    (rests : d.inDigitTs = 0 → d.inDigitSanity = 0) :
    Steady (newEvent cfg true p.event d).1 := by
  unfold newEvent
  rw [event_seq, @continueDigit_eq cfg d p [] hears]
  simp only [event_ended]
  cases p.ended with
  | false =>
    by_cases closed : d.inDigitTs = 0
    · simp only [closed, startDigit, event_ts, beq_self_eq_true, if_true,
        Bool.false_eq_true, if_false]
      exact .of_opened timed rfl
    · simp only [closed, beq_iff_eq, Bool.false_eq_true, if_false]
      exact .of_opened closed rfl
  | true =>
    by_cases closed : d.inDigitTs = 0
    · by_cases started : d.lastInDigitTs = p.ts.toNat
      · simp only [closed, started, event_ts, bne_self_eq_false, Bool.and_false, if_true,
          Bool.false_eq_true, if_false]
        exact .of_closed rfl (rests closed)
      · simp only [closed, started, startDigit, event_ts, beq_self_eq_true, Bool.true_and,
          bne_iff_ne, ne_eq, not_false_eq_true, if_true, timed]
        exact .of_closed rfl rfl
    · simp only [closed, beq_iff_eq, bne_iff_ne, ne_eq, not_false_eq_true, if_true, if_false,
        Bool.and_eq_true, false_and]
      exact .of_closed rfl rfl

theorem handleEvent_steady (hears : Hears cfg) (steady : Steady d)
    (heeded : Heeded (d.heard []) p) :
    Steady (handleEvent cfg true p.event
      { d with inDigitSanity := d.inDigitSanity - 1 }).1 := by
  have rests : d.inDigitTs = 0 → d.inDigitSanity - 1 = 0 := fun closed => by
    rw [steady.closed closed]
  rw [handleEvent_filter]
  by_cases zero : p.seq.toNat = 0
  · have starts : filter d.inDigitSeq p.seq.toNat = 0 := filter_zero heeded.follows zero
    rw [starts, if_neg (by omega)]
    refine ⟨rests, fun opened => ?_, fun _ counts => absurd rfl counts⟩
    have last : d.inDigitSeq = 65535 := by
      rcases heeded.follows with ⟨-, closed⟩ | ⟨small, next⟩
      · exact absurd closed opened
      · unfold DtmfIn.heard at small next
        dsimp only at small next
        omega
    have full := steady.counted opened (by omega)
    dsimp only
    omega
  · have passes : filter d.inDigitSeq p.seq.toNat < p.seq.toNat :=
      filter_lt heeded.follows zero
    rw [if_pos passes]
    exact newEvent_sanity hears heeded.timed rests

/-- **Packets without gaps never meet the timeout for sanity.** -/
theorem arrive_steady (hears : Hears cfg) {l : Hearer} (steady : Steady l.recv.dtmf)
    (heeded : Heeded l.hearing p) : Steady (l.arrive cfg p).recv.dtmf := by
  obtain ⟨msg, interleaved, same, state⟩ :=
    arrive_dtmf hears.te_ne hears.te_lt hears.noProxy hears.noPass l p
  have unblank : checkBlank msg 16 (checkSanity l.recv.dtmf) =
      { l.recv.dtmf with inDigitSanity := l.recv.dtmf.inDigitSanity - 1 } := by
    rw [checkSanity_eq steady.calm, checkBlank, same, heeded.full]
    rfl
  rw [unblank] at state
  have next := handleEvent_steady hears steady { heeded with }
  rw [state]
  exact { next with }

end Sanity

/-! ### A line between two sessions -/

/-- A session that sends, the number of its datagrams that arrived, and where they arrive. -/
structure ToneLine where
  send : RtpSend
  arrived : Nat
  recv : Hearer

/-- `do_2833` is called, the next datagram arrives, or the application asks for a digit. -/
inductive ToneOp
  | tick (samplecount : Nat) (env : DigitEnv)
  | deliver
  | dequeue

/-- The call of `do_2833`. -/
def ToneOp.isTick : ToneOp → Bool
  | .tick .. => true
  | _ => false

/-- One step, of a session with `cfg` to one with `cfg'`. -/
def ToneLine.step (cfg cfg' : RtpConfig) (line : ToneLine) : ToneOp → ToneLine
  | .tick samplecount env => { line with send := do2833 cfg line.send samplecount env }
  | .deliver =>
    match line.send.log[line.arrived]? with
    | none => line
    | some sent =>
      { line with arrived := line.arrived + 1, recv := line.recv.receive cfg' sent.data }
  | .dequeue => { line with recv := line.recv.dequeue }

/-- Every packet of a call is sent, timestamps do not wrap around, and the receiver's queue is not
full. -/
def ToneLine.Lossless (cfg : RtpConfig) (line : ToneLine) : ToneOp → Prop
  | .tick _ env => env.Passes ∧ Unwrapped cfg line.send
  | .deliver => line.recv.recv.dtmf.inqueue.length < inqueueSize
  | .dequeue => True

def ToneLine.Prompt (cfg : RtpConfig) (line : ToneLine) : ToneOp → Prop
  | .tick samplecount _ => Due cfg line.send samplecount
  | _ => True

def ToneLine.Finished (line : ToneLine) : Prop :=
  line.send.dtmf.outDigitDur = 0 ∧ line.send.dtmf.dtmfQueue = [] ∧
    line.arrived = line.send.log.length

instance (e : ManualEnv) : Decidable e.Passes :=
  decidable_of_iff (e.ready = true ∧ e.remoteAddr = true ∧ e.answers.zrtp = .off ∧
    e.answers.wrote.isSome = true)
    ⟨fun ⟨ready, remote, clear, sent⟩ => ⟨ready, remote, clear, sent⟩,
      fun ⟨ready, remote, clear, sent⟩ => ⟨ready, remote, clear, sent⟩⟩

instance (e : DigitEnv) : Decidable e.Passes :=
  decidable_of_iff (e.first.Passes ∧ e.second.Passes ∧ e.third.Passes)
    ⟨fun ⟨first, second, third⟩ => ⟨first, second, third⟩,
      fun ⟨first, second, third⟩ => ⟨first, second, third⟩⟩

instance (cfg : RtpConfig) (line : ToneLine) :
    (op : ToneOp) → Decidable (line.Lossless cfg op)
  | .tick _ env => inferInstanceAs
      (Decidable (env.Passes ∧ line.send.lastWriteTs + max cfg.samplesPerInterval
        (delaySamples cfg) < 2 ^ 32))
  | .deliver => inferInstanceAs (Decidable (line.recv.recv.dtmf.inqueue.length < inqueueSize))
  | .dequeue => inferInstanceAs (Decidable True)

instance (line : ToneLine) : Decidable line.Finished :=
  inferInstanceAs (Decidable (line.send.dtmf.outDigitDur = 0 ∧ line.send.dtmf.dtmfQueue = [] ∧
    line.arrived = line.send.log.length))

def newHearing : Hearing := ⟨0, 0, 0, 0, 0, []⟩

/-- **Between the two sessions**: the datagrams are packets without a gap, and the receiver has
heard those that arrived. -/
structure Carried (cfg cfg' : RtpConfig) (all : List Dtmf) (line : ToneLine) : Prop where
  carried : ∃ packets h, line.send.log.map Sent.data = packets.map (·.bytes cfg.te) ∧
    Leads (hear cfg'.minDtmfDuration) Heeded newHearing packets h ∧
    Spoken cfg cfg'.minDtmfDuration all line.send h ∧
    line.recv.hearing =
      run (hear cfg'.minDtmfDuration) newHearing (packets.take line.arrived)
  arrived : line.arrived ≤ line.send.log.length
  regular : line.recv.recv.dtmf.inDigitQueued = false
  steady : Steady line.recv.recv.dtmf

open ToneLine

section Line

variable {cfg cfg' : RtpConfig} {all : List Dtmf} {line : ToneLine}
  (carried : Carried cfg cfg' all line)
include carried

theorem carried_dequeue : Carried cfg cfg' all (line.step cfg cfg' .dequeue) := by
  obtain ⟨⟨packets, h, sent, leads, spoken, heard⟩, arrived, regular, steady⟩ := carried
  refine ⟨⟨packets, h, sent, leads, spoken, (hearing_dequeue _).trans heard⟩, arrived,
    (dequeue_queued _).trans regular, ?_⟩
  change Steady line.recv.dequeue.recv.dtmf
  unfold Hearer.dequeue dequeueDtmf
  cases line.recv.recv.dtmf.inqueue with
  | nil => exact steady
  | cons digit rest => exact { steady with }

theorem carried_deliver (hears : Hears cfg') (same : cfg'.recvTe = cfg.te)
    (room : line.recv.recv.dtmf.inqueue.length < inqueueSize) :
    Carried cfg cfg' all (line.step cfg cfg' .deliver) := by
  unfold step
  cases next : line.send.log[line.arrived]? with
  | none => exact carried
  | some datagram =>
    obtain ⟨⟨packets, h, sent, leads, spoken, heard⟩, arrived, regular, steady⟩ := carried
    obtain ⟨inside, -⟩ := List.getElem?_eq_some_iff.mp next
    obtain ⟨p, packet, bytes⟩ : ∃ p, packets[line.arrived]? = some p ∧
        p.bytes cfg.te = datagram.data := by
      have both := congrArg (·[line.arrived]?) sent
      simp only [getElem?_map, next, Option.map_some] at both
      exact Option.map_eq_some_iff.mp both.symm
    have take : packets.take (line.arrived + 1) = packets.take line.arrived ++ [p] := by
      rw [take_add_one, packet]
      rfl
    have heeded : Heeded line.recv.hearing p := by
      have whole : packets.take line.arrived ++ p :: packets.drop (line.arrived + 1) = packets := by
        rw [← singleton_append, ← append_assoc, ← take, take_append_drop]
      have along := leads.1
      rw [← whole] at along
      rw [heard]
      exact along.ending.1
    obtain ⟨effect, stays⟩ := hearing_packet hears regular ⟨steady.calm, room⟩ (p := p)
    have steadily := arrive_steady hears steady heeded
    unfold Hearer.arrive at effect stays steadily
    rw [same, bytes] at effect stays steadily
    refine ⟨⟨packets, h, sent, leads, spoken, ?_⟩, inside, stays, steadily⟩
    rw [take, run_append, ← heard]
    exact effect

variable (playable : ∀ digit ∈ all, Playable cfg digit)
include playable

theorem Carried.received (finished : line.Finished) :
    line.recv.hearing.digits = all.map (receivedDigit cfg cfg'.minDtmfDuration) := by
  obtain ⟨packets, h, sent, leads, spoken, heard⟩ := carried.carried
  obtain ⟨silent, empty, arrived⟩ := finished
  have length : packets.length ≤ line.arrived := by
    have lengths := congrArg List.length sent
    rw [length_map, length_map] at lengths
    omega
  rw [heard, take_of_length_le length, leads.2]
  rcases spoken.phase with resting | ⟨digit, steps, sounding⟩
  · obtain ⟨done, split, digits⟩ := resting.heard
    rw [empty, append_nil] at split
    rw [digits, split]
  · have positive := (playable digit sounding.member).positive
    rw [← sounding.inside.duration, silent] at positive
    exact absurd positive (lt_irrefl 0)

variable (speaks : Speaks cfg)
include speaks

theorem carried_tick {e : DigitEnv} (passes : e.Passes) (unwrapped : Unwrapped cfg line.send)
    (samplecount : Nat) :
    Carried cfg cfg' all (line.step cfg cfg' (.tick samplecount e)) ∧
      (Due cfg line.send samplecount →
        ticksLeft cfg (line.step cfg cfg' (.tick samplecount e)).send.dtmf =
          ticksLeft cfg line.send.dtmf - 1) := by
  obtain ⟨⟨packets, h, sent, leads, spoken, heard⟩, arrived, regular, steady⟩ := carried
  obtain ⟨left, ⟨more, h', sentMore, leadsMore, spokenMore, fewer⟩, due⟩ :=
    tick_spoken speaks spoken unwrapped playable passes samplecount
  have length : line.send.log.length = packets.length := by
    have lengths := congrArg List.length sent
    rwa [length_map, length_map] at lengths
  have longer : line.send.log.length ≤ (do2833 cfg line.send samplecount e).log.length := by
    have lengths := congrArg List.length sentMore
    rw [length_map, length_append, length_map] at lengths
    omega
  refine ⟨⟨⟨packets ++ more, h', ?_, leads.append leadsMore, spokenMore, ?_⟩,
    arrived.trans longer, regular, steady⟩, fun goes => fewer.trans (due goes)⟩
  · exact sentMore.trans (by rw [sent, map_append])
  · change line.recv.hearing = _ at heard ⊢
    rw [take_append_of_le_length (length ▸ arrived)]
    exact heard

/-- **One step** keeps what holds between the sessions; a prompt call brings the end nearer. -/
theorem carried_step (hears : Hears cfg') (same : cfg'.recvTe = cfg.te)
    {op : ToneOp} (lossless : line.Lossless cfg op) :
    Carried cfg cfg' all (line.step cfg cfg' op) ∧ (line.Prompt cfg op →
      ticksLeft cfg (line.step cfg cfg' op).send.dtmf =
        ticksLeft cfg line.send.dtmf - if op.isTick then 1 else 0) := by
  cases op with
  | tick samplecount e => exact carried_tick carried playable speaks lossless.1 lossless.2 samplecount
  | deliver =>
    refine ⟨carried_deliver carried hears same lossless, fun _ => ?_⟩
    unfold step
    cases line.send.log[line.arrived]? <;> rfl
  | dequeue => exact ⟨carried_dequeue carried, fun _ => rfl⟩

theorem carried_run (hears : Hears cfg') (same : cfg'.recvTe = cfg.te)
    {ops : List ToneOp} (lossless : Along (step cfg cfg') (Lossless cfg) line ops) :
    Carried cfg cfg' all (run (step cfg cfg') line ops) ∧
      (Along (step cfg cfg') (Prompt cfg) line ops →
        ticksLeft cfg (run (step cfg cfg') line ops).send.dtmf =
          ticksLeft cfg line.send.dtmf - ops.countP ToneOp.isTick) := by
  induction ops generalizing line with
  | nil => exact ⟨carried, fun _ => rfl⟩
  | cons op ops ih =>
    obtain ⟨next, fewer⟩ := carried_step carried playable speaks hears same lossless.1
    obtain ⟨last, rest⟩ := ih next lossless.2
    refine ⟨last, fun prompt => ?_⟩
    rw [run_cons, rest prompt.2, fewer prompt.1, countP_cons]
    omega

theorem Carried.sent (none : ticksLeft cfg line.send.dtmf = 0) :
    line.send.dtmf.outDigitDur = 0 ∧ line.send.dtmf.dtmfQueue = [] := by
  obtain ⟨packets, h, -, -, spoken, -⟩ := carried.carried
  rcases spoken.phase with resting | ⟨digit, steps, sounding⟩
  · refine ⟨resting.silent, ?_⟩
    rw [ticksLeft_silent resting.silent] at none
    cases queue : line.send.dtmf.dtmfQueue with
    | nil => rfl
    | cons digit rest =>
      rw [queue, map_cons, sum_cons] at none
      have two := two_le_toneSteps cfg.samplesPerInterval digit.duration
      omega
  · rw [ticksLeft_inDigit sounding.inside speaks (playable digit sounding.member)] at none
    have goes := sounding.inside.goes
    omega

end Line

/-! ### The digits requested -/

/-- `switch_rtp_queue_rfc2833` on every request, with room in the queue. -/
def queueAll (cfg : RtpConfig) (s : RtpSend) (requests : List Dtmf) : RtpSend :=
  requests.foldl (fun s request => queueRfc2833 cfg s true true request) s

def queuedDigit (cfg : RtpConfig) (request : Dtmf) : Dtmf :=
  ⟨request.digit, max request.duration cfg.minDtmfDuration⟩

theorem queueAll_eq (cfg : RtpConfig) (s : RtpSend) (requests : List Dtmf) :
    queueAll cfg s requests = { s with dtmf := { s.dtmf with
      dtmfQueue := s.dtmf.dtmfQueue ++ requests.map (queuedDigit cfg) } } := by
  induction requests generalizing s with
  | nil => simp [queueAll]
  | cons request requests ih =>
    have next := ih (queueRfc2833 cfg s true true request)
    unfold queueAll at next ⊢
    rw [foldl_cons, next]
    simp [queueRfc2833, queuedDigit]

structure FirstDigits (s : RtpSend) : Prop where
  header : s.sendMsg.mem 0 = 0x80
  small : s.seq < 65536
  written : s.lastWriteTs ≠ 0
  stamped : s.lastWriteTs < 2 ^ 32
  silent : s.dtmf.outDigitDur = 0
  empty : s.dtmf.dtmfQueue = []
  log : s.log = []

def newLine (cfg : RtpConfig) (s : RtpSend) (requests : List Dtmf) (recv : RtpRecv) : ToneLine :=
  ⟨queueAll cfg s requests, 0, newHearer recv⟩

theorem carried_newLine {cfg : RtpConfig} (cfg' : RtpConfig) {s : RtpSend} (first : FirstDigits s)
    (requests : List Dtmf) (recv : RtpRecv) :
    Carried cfg cfg' (requests.map (queuedDigit cfg)) (newLine cfg s requests recv) := by
  unfold newLine
  rw [queueAll_eq, first.empty, nil_append]
  refine ⟨⟨[], newHearing, ?_, .refl _, ⟨first.header, first.small, first.written, first.stamped,
    .inl ⟨rfl, rfl⟩, .inl ⟨first.silent, ⟨[], rfl, rfl⟩, rfl, rfl, Nat.zero_le _⟩⟩, rfl⟩,
    Nat.zero_le _, rfl, .of_closed rfl rfl⟩
  rw [first.log]
  rfl

def requestPlayed (cfg : RtpConfig) (request : Dtmf) : Nat :=
  playedDuration cfg.samplesPerInterval (max request.duration cfg.minDtmfDuration)

/-- **Digits go from one session to another.** In every lossless run, when the queue has been sent
and all packets have arrived, the digits received are those requested, in order, each for the
duration it was played, or the least duration of the receiver. This duration is the least multiple
of the interval, beyond one interval, that is neither below the one requested nor below the least
duration of the sender. Calls that find no delay between digits send the queue, when they are as
many as the intervals of all digits. -/
theorem digits_end_to_end {cfg cfg' : RtpConfig} (speaks : Speaks cfg) (hears : Hears cfg')
    (same : cfg'.recvTe = cfg.te) {s : RtpSend} (first : FirstDigits s) (recv : RtpRecv)
    {requests : List Dtmf}
    (playable : ∀ request ∈ requests,
      request.digit ∈ toneKeys ∧ requestPlayed cfg request ≤ 0xFFFF)
    {ops : List ToneOp}
    (lossless : Along (step cfg cfg') (Lossless cfg)
      (newLine cfg s requests recv) ops) :
    let line := run (step cfg cfg') (newLine cfg s requests recv) ops
    (line.Finished → line.recv.hearing.digits = requests.map fun request =>
      ⟨request.digit, max (requestPlayed cfg request) cfg'.minDtmfDuration⟩) ∧
    (∀ request ∈ requests, IsLeast {played | ∃ steps, 2 ≤ steps ∧
      played = steps * cfg.samplesPerInterval ∧ max request.duration cfg.minDtmfDuration ≤ played}
      (requestPlayed cfg request)) ∧
    (Along (step cfg cfg') (Prompt cfg) (newLine cfg s requests recv) ops →
      (requests.map fun request => toneSteps cfg.samplesPerInterval
        (max request.duration cfg.minDtmfDuration)).sum ≤ ops.countP ToneOp.isTick →
      line.send.dtmf.outDigitDur = 0 ∧ line.send.dtmf.dtmfQueue = []) := by
  intro line
  have queued : ∀ digit ∈ requests.map (queuedDigit cfg), Playable cfg digit := by
    intro digit member
    obtain ⟨request, requested, rfl⟩ := mem_map.mp member
    obtain ⟨key, short⟩ := playable request requested
    exact ⟨key, lt_of_lt_of_le speaks.least (le_max_right _ _), short⟩
  obtain ⟨carried, fewer⟩ := carried_run (carried_newLine cfg' first requests recv) queued speaks hears
    same lossless
  refine ⟨fun finished => ?_, fun request _ => ?_, fun prompt enough => ?_⟩
  · rw [carried.received queued finished, map_map]
    rfl
  · exact playedDuration_isLeast speaks.samples _
  · have start : ticksLeft cfg (newLine cfg s requests recv).send.dtmf =
        (requests.map fun request => toneSteps cfg.samplesPerInterval
          (max request.duration cfg.minDtmfDuration)).sum := by
      have silent : (newLine cfg s requests recv).send.dtmf.outDigitDur = 0 := by
        rw [newLine, queueAll_eq]
        exact first.silent
      have queue : (newLine cfg s requests recv).send.dtmf.dtmfQueue =
          requests.map (queuedDigit cfg) := by
        rw [newLine, queueAll_eq, first.empty]
        rfl
      rw [ticksLeft_silent silent, queue, map_map]
      rfl
    refine carried.sent queued speaks ?_
    rw [fewer prompt, start]
    exact Nat.sub_eq_zero_of_le enough

def digitConfig : RtpConfig :=
  { (default : RtpConfig) with
    te := 101
    recvTe := 101
    samplesPerInterval := 160
    samplesPerSecond := 8000
    minDtmfDuration := 400 }

def spokenTo (seq : Nat) : RtpSend :=
  { (default : RtpSend) with
    sendMsg := ⟨fun i => if i = 0 then 0x80 else 0, none⟩
    seq := seq
    lastWriteTs := 160 }

theorem spokenTo_first : FirstDigits (spokenTo 65532) :=
  ⟨rfl, by decide, by decide, by decide, rfl, rfl, rfl⟩

def clearEnv : ManualEnv := ⟨true, true, ⟨true, 0, 0, [], .off, some 16⟩⟩

/-- A call of `do_2833`, and the arrival of so many datagrams. -/
def callAndDeliver (datagrams : Nat) : List ToneOp :=
  .tick 0 ⟨clearEnv, clearEnv, clearEnv⟩ :: List.replicate datagrams .deliver

def twoDigits : List ToneOp :=
  callAndDeliver 1 ++ callAndDeliver 1 ++ callAndDeliver 3 ++ [.dequeue] ++ callAndDeliver 1 ++
    callAndDeliver 1 ++ callAndDeliver 3

theorem digitConfig_speaks : Speaks digitConfig := ⟨by decide, rfl, rfl, by decide, by decide⟩

theorem digitConfig_hears : Hears digitConfig := ⟨by decide, by decide, rfl, rfl, rfl⟩

/-- The packets have the numbers 65533 to 65535 and 0 to 6. -/
theorem digits_end_to_end_two :
    Speaks digitConfig ∧ Hears digitConfig ∧ FirstDigits (spokenTo 65532) ∧
      (run (step digitConfig digitConfig)
        (newLine digitConfig (spokenTo 65532) [⟨'5', 480⟩, ⟨'A', 401⟩] default)
        twoDigits).recv.hearing.digits = [⟨'5', 480⟩, ⟨'A', 480⟩] :=
  ⟨digitConfig_speaks, digitConfig_hears, spokenTo_first,
    ((digits_end_to_end digitConfig_speaks digitConfig_hears rfl spokenTo_first default
      (by decide +kernel) (by decide +kernel)).1 (by decide +kernel)).trans (by decide +kernel)⟩

/-- **A short digit is received longer**: one requested for 100 samples is queued for the least
duration, 400, and received with 480; the least multiple of the interval, beyond one interval, that
is as long as requested is 320. -/
theorem short_digit_lengthened :
    let line := run (step digitConfig digitConfig)
      (newLine digitConfig (spokenTo 65532) [⟨'5', 100⟩] default)
      (callAndDeliver 1 ++ callAndDeliver 1 ++ callAndDeliver 3)
    Along (step digitConfig digitConfig) (Lossless digitConfig)
        (newLine digitConfig (spokenTo 65532) [⟨'5', 100⟩] default)
        (callAndDeliver 1 ++ callAndDeliver 1 ++ callAndDeliver 3) ∧
      line.Finished ∧ line.recv.hearing.digits = [⟨'5', 480⟩] ∧
      IsLeast {played | ∃ steps, 2 ≤ steps ∧
        played = steps * digitConfig.samplesPerInterval ∧ 100 ≤ played} 320 := by
  refine ⟨by decide +kernel, by decide +kernel, by decide +kernel, ?_⟩
  exact playedDuration_isLeast (by decide) 100

end FreeSwitch
