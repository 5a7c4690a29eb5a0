/-
**One pass of the conference mixer.**

`conference_thread_run` reads a frame from every member that has enough audio buffered, adds up the
frames of the running members in 32 bits, and gives every running member that can hear the sum
without its own frame, and without the frames of the members that a relationship silences for it.
Frames are bytes in the order of the machine; floor, video, recording, energy scores and events are
left out, since no frame depends on them.

* `mixed_frames_iff`: where everybody gets the clamped sum of the others.
-/

import FreeSwitch.Lib.Endian
import FreeSwitch.Lib.Wrapped

namespace FreeSwitch

open List Wrapped

/-! ### The code -/

/-- `conference_relationship_t`; a member with `id` may be heard, or may hear. -/
structure Relationship where
  addr : Nat
  id : Nat
  canSpeak : Bool
  canHear : Bool
deriving DecidableEq

/-- `conference_member_t`, as far as the mixer uses it. -/
structure ConfMember where
  id : Nat
  running : Bool
  canHear : Bool
  hasAudio : Bool
  audioBuffer : List (BitVec 8)
  muxBuffer : List (BitVec 8)
  frame : List (BitVec 8)
  read : Nat
  relationships : List Relationship
deriving DecidableEq

/-- The members and `relationship_total`. -/
structure Conference where
  members : List ConfMember
  relationshipTotal : Nat
deriving DecidableEq

/-- `file_sample_len` and `file_frame` of the files that are played. -/
structure FileAudio where
  sampleLen : Nat
  frame : List (BitVec 8)
deriving DecidableEq

variable (conf : Conference) (big : Bool)

/-- The `int16_t` number `x` of a frame, with the high byte first or not. -/
def sampleAt (frame : List (BitVec 8)) (x : Nat) : Int :=
  Int.bmod (Bytes.value16 big (fun i => frame[i]?.getD 0) (2 * x)) (2 ^ 16)

def normalizeTo16bit (n : Int) : Int := if n > 32767 then 32767 else if n < -32768 then -32768 else n

/-- The bytes of the `int16_t` numbers `write_frame[0..samples-1]`. -/
def frameBytes (samples : Nat) (frame : Nat → Int) : List (BitVec 8) :=
  (List.range samples).flatMap fun x => Bytes.bytes16 big (frame x % 2 ^ 16).toNat

/-- The read pass for one member: a frame from `audio_buffer`, if there is one. -/
def ConfMember.take (m : ConfMember) (bytes : Nat) : ConfMember :=
  if m.audioBuffer.length ≥ bytes ∧ bytes ≠ 0 then
    { m with
      read := bytes
      hasAudio := true
      frame := m.audioBuffer.take bytes
      audioBuffer := m.audioBuffer.drop bytes }
  else { m with read := 0, hasAudio := false }

/-- The counter `ready`, an `uint8_t`. -/
def ready (members : List ConfMember) : Nat :=
  members.foldl (fun n m => if m.hasAudio then (n + 1) % 2 ^ 8 else n) 0

variable (file : Option FileAudio)

/-- `main_frame[x]` before the members are added. -/
def mainInit (x : Nat) : Int :=
  match file with
  | none => 0
  | some file =>
    if file.sampleLen = 0 then 0 else if x ≤ file.sampleLen then sampleAt big file.frame x else -1

/-- `main_frame[x]`. -/
def mainFrame (members : List ConfMember) (x : Nat) : Int :=
  members.foldl (fun z m =>
    if m.running && m.hasAudio && x < m.read / 2 then int32 (z + sampleAt big m.frame x) else z)
    (mainInit big file x)

/-- A relationship silences `imember` for `omember`: it may not speak to it, or is not to be heard by
it. -/
def silences (imember omember : ConfMember) : Bool :=
  (imember.relationships.any fun rel => (rel.id = omember.id || rel.id = 0) && !rel.canSpeak) ||
    omember.relationships.any fun rel => (rel.id = imember.id || rel.id = 0) && !rel.canHear

/-- The sample `z` for `omember`, at the place `k` of the list, before it is normalized. -/
def Conference.mixed (k : Nat) (omember : ConfMember) (x : Nat) : Int :=
  let z := mainFrame big file conf.members x
  let z := if omember.hasAudio && x ≤ omember.read / 2 then int32 (z - sampleAt big omember.frame x)
    else z
  if conf.relationshipTotal ≠ 0 then
    (conf.members.eraseIdx k).foldl (fun z imember =>
      if imember.hasAudio && silences imember omember then int32 (z - sampleAt big imember.frame x)
      else z) z
  else z

def Conference.takeFrames (bytes : Nat) : Conference :=
  { conf with members := conf.members.map (·.take bytes) }

/-- The frame for the member at the place `k`. -/
def Conference.writeFrame (samples : Nat) (file : Option FileAudio) (k : Nat) (omember : ConfMember)
    : List (BitVec 8) :=
  frameBytes big samples fun x => normalizeTo16bit (conf.mixed big file k omember x)

/-- A pass of `conference_thread_run` in which all writes to buffers succeed. -/
def Conference.pass (samples : Nat) (file : Option FileAudio) : Conference :=
  let conf := conf.takeFrames (samples * 2)
  if ready conf.members ≠ 0 ∨ file.isSome then
    { conf with members := conf.members.mapIdx fun k omember =>
        if omember.running && omember.canHear then
          { omember with
            muxBuffer := omember.muxBuffer ++ conf.writeFrame big samples file k omember }
        else omember }
  else conf

/-! ### What a listener gets -/

open Conference

section Mixing

variable {big : Bool} {samples : Nat} {file : Option FileAudio} {conf : Conference}

def ConfMember.supplies (m : ConfMember) (samples : Nat) : Bool :=
  m.audioBuffer.length ≥ samples * 2 && samples ≠ 0

/-- The sample `x` of the frame that the member has to be read. -/
def ConfMember.offered (m : ConfMember) (big : Bool) (samples x : Nat) : Int :=
  sampleAt big (m.audioBuffer.take (samples * 2)) x

variable {m : ConfMember} {x : Nat}

theorem take_supplies (supplies : m.supplies samples = true) : m.take (samples * 2) = { m with
      read := samples * 2
      hasAudio := true
      frame := m.audioBuffer.take (samples * 2)
      audioBuffer := m.audioBuffer.drop (samples * 2) } := by
  simp only [ConfMember.supplies, Bool.and_eq_true, decide_eq_true_eq] at supplies
  exact if_pos ⟨supplies.1, by omega⟩

theorem take_silent (silent : m.supplies samples = false) :
    m.take (samples * 2) = { m with read := 0, hasAudio := false } := by
  refine if_neg fun both => ?_
  have supplies : m.supplies samples = true := by
    simp only [ConfMember.supplies, Bool.and_eq_true, decide_eq_true_eq]
    exact ⟨both.1, by omega⟩
  rw [silent] at supplies
  cases supplies

theorem take_same (m : ConfMember) (bytes : Nat) :
    (m.take bytes).id = m.id ∧ (m.take bytes).running = m.running ∧
      (m.take bytes).canHear = m.canHear ∧ (m.take bytes).muxBuffer = m.muxBuffer ∧
      (m.take bytes).relationships = m.relationships := by
  unfold ConfMember.take
  split <;> exact ⟨rfl, rfl, rfl, rfl, rfl⟩

theorem take_hasAudio (m : ConfMember) : (m.take (samples * 2)).hasAudio = m.supplies samples := by
  cases supplies : m.supplies samples with
  | true => rw [take_supplies supplies]
  | false => rw [take_silent supplies]

theorem silences_take (imember omember : ConfMember) (bytes : Nat) :
    silences (imember.take bytes) (omember.take bytes) = silences imember omember := by
  obtain ⟨id, -, -, -, relationships⟩ := take_same imember bytes
  obtain ⟨id', -, -, -, relationships'⟩ := take_same omember bytes
  rw [silences, id, id', relationships, relationships']
  rfl

/-- How often the frame of `imember` is in what `omember` gets: once if it runs, once less if
silenced. -/
def Conference.gain (conf : Conference) (imember omember : ConfMember) : Int :=
  (if imember.running then 1 else 0) -
    if conf.relationshipTotal ≠ 0 ∧ silences imember omember = true then 1 else 0

/-- What `imember` adds to the sample `x` for `omember`. -/
def Conference.share (conf : Conference) (big : Bool) (samples : Nat) (omember : ConfMember)
    (x : Nat) (imember : ConfMember) : Int :=
  if imember.supplies samples then conf.gain imember omember * imember.offered big samples x else 0

theorem sampleAt_bounds (frame : List (BitVec 8)) (x : Nat) :
    -2 ^ 15 ≤ sampleAt big frame x ∧ sampleAt big frame x < 2 ^ 15 := by
  unfold sampleAt
  constructor
  · have := Int.le_bmod (x := Bytes.value16 big (fun i => frame[i]?.getD 0) (2 * x))
      (m := 2 ^ 16) (by decide)
    omega
  · have := Int.bmod_lt (x := Bytes.value16 big (fun i => frame[i]?.getD 0) (2 * x))
      (m := 2 ^ 16) (by decide)
    omega

theorem int32_mainInit (x : Nat) : int32 (mainInit big file x) = mainInit big file x := by
  unfold mainInit
  split
  · rfl
  next file =>
    have : -2 ^ 15 ≤ sampleAt big file.frame x ∧ sampleAt big file.frame x < 2 ^ 15 :=
      sampleAt_bounds file.frame x
    split
    · rfl
    · split
      · exact int32_eq (by omega) (by omega)
      · rfl

theorem addend_take (inside : x < samples) (m : ConfMember) :
    (if (m.take (samples * 2)).running && (m.take (samples * 2)).hasAudio &&
        decide (x < (m.take (samples * 2)).read / 2) then
      sampleAt big (m.take (samples * 2)).frame x else 0) =
    if m.supplies samples then (if m.running then 1 else 0) * m.offered big samples x else 0 := by
  cases supplies : m.supplies samples with
  | true =>
    rw [take_supplies supplies]
    cases running : m.running <;> simp [inside, ConfMember.offered]
  | false =>
    rw [take_silent supplies]
    simp

theorem mainFrame_eq (inside : x < samples) :
    mainFrame big file (conf.takeFrames (samples * 2)).members x =
      int32 (mainInit big file x + (conf.members.map fun m =>
        if m.supplies samples then (if m.running then 1 else 0) * m.offered big samples x
        else 0).sum) := by
  rw [mainFrame]
  nth_rewrite 1 [← int32_mainInit]
  rw [foldl_add_eq, takeFrames, map_map]
  congr 4
  funext m
  exact addend_take inside m

theorem subtrahend_take (m o : ConfMember) (x : Nat) :
    (if (m.take (samples * 2)).hasAudio && silences (m.take (samples * 2)) (o.take (samples * 2)) then
      sampleAt big (m.take (samples * 2)).frame x else 0) =
    if m.supplies samples then (if silences m o then 1 else 0) * m.offered big samples x else 0 := by
  rw [silences_take]
  cases supplies : m.supplies samples with
  | true =>
    rw [take_supplies supplies]
    cases silenced : silences m o <;> simp [ConfMember.offered]
  | false =>
    rw [take_silent supplies]
    simp

/-- **What a listener gets**, before it is normalized: the file and the shares of the others, in 32
bits. -/
theorem mixed_eq {k : Nat} (here : conf.members[k]? = some m) (running : m.running = true)
    (inside : x < samples) :
    (conf.takeFrames (samples * 2)).mixed big file k (m.take (samples * 2)) x =
      int32 (mainInit big file x +
        ((conf.members.eraseIdx k).map (conf.share big samples m x)).sum) := by
  -- the member's own frame is taken away again
  have own : (if (m.take (samples * 2)).hasAudio && decide (x ≤ (m.take (samples * 2)).read / 2) then
        int32 (mainFrame big file (conf.takeFrames (samples * 2)).members x -
          sampleAt big (m.take (samples * 2)).frame x)
        else mainFrame big file (conf.takeFrames (samples * 2)).members x) =
      int32 (mainInit big file x + ((conf.members.eraseIdx k).map fun m =>
        if m.supplies samples then (if m.running then 1 else 0) * m.offered big samples x
        else 0).sum) := by
    rw [mainFrame_eq inside, sum_eraseIdx here]
    cases supplies : m.supplies samples with
    | true =>
      rw [take_supplies supplies]
      have short : x ≤ samples := inside.le
      simp only [running, if_true, one_mul, Bool.true_and, Nat.mul_div_cancel samples Nat.two_pos,
        short, decide_true, int32_sub_int32, ConfMember.offered]
      congr 1
      ring
    | false =>
      rw [take_silent supplies]
      simp
  rw [mixed, own]
  by_cases related : conf.relationshipTotal = 0
  · rw [if_neg (by simpa [takeFrames] using related)]
    congr 4
    funext imember
    simp [share, gain, related]
  · rw [if_pos (by simpa [takeFrames] using related), foldl_sub_eq,
      takeFrames, eraseIdx_map, map_map, add_sub_assoc, ← sum_sub]
    congr 4
    funext imember
    rw [Function.comp_apply, subtrahend_take]
    cases supplies : imember.supplies samples <;>
      simp [share, gain, related, supplies, sub_mul]

theorem ready_eq : ready (conf.takeFrames (samples * 2)).members =
    conf.members.countP (·.supplies samples) % 2 ^ 8 := by
  have counts (members : List ConfMember) (n : Nat) : (members.map (·.take (samples * 2))).foldl
          (fun n m => if m.hasAudio then (n + 1) % 2 ^ 8 else n) (n % 2 ^ 8) =
        (n + members.countP (·.supplies samples)) % 2 ^ 8 := by
    induction members generalizing n with
    | nil => rfl
    | cons m members ih =>
      rw [map_cons, foldl_cons, take_hasAudio, countP_cons]
      cases m.supplies samples with
      | true =>
        rw [if_pos rfl, if_pos rfl, Nat.mod_add_mod, ih]
        congr 1
        omega
      | false => exact ih n
  have all := counts conf.members 0
  rwa [Nat.zero_add] at all

theorem pass_muxBuffer (big : Bool) (samples : Nat) (file : Option FileAudio) {k : Nat}
    (here : conf.members[k]? = some m) :
    ∃ m', (conf.pass big samples file).members[k]? = some m' ∧
      m'.muxBuffer = m.muxBuffer ++
        if (conf.members.countP (·.supplies samples) % 2 ^ 8 ≠ 0 ∨ file.isSome = true) ∧
          m.running = true ∧ m.canHear = true then
          (conf.takeFrames (samples * 2)).writeFrame big samples file k (m.take (samples * 2))
        else [] := by
  obtain ⟨-, running, canHear, muxBuffer, -⟩ := take_same m (samples * 2)
  have there : (conf.takeFrames (samples * 2)).members[k]? = some (m.take (samples * 2)) := by
    simp [Conference.takeFrames, here]
  unfold Conference.pass
  dsimp only
  rw [ready_eq]
  by_cases mixes : conf.members.countP (·.supplies samples) % 2 ^ 8 ≠ 0 ∨ file.isSome = true
  · rw [if_pos mixes]
    refine ⟨_, by rw [getElem?_mapIdx, there]; rfl, ?_⟩
    dsimp only
    by_cases listens : m.running = true ∧ m.canHear = true
    · have hears : ((m.take (samples * 2)).running && (m.take (samples * 2)).canHear) = true := by
        rw [running, canHear, Bool.and_eq_true]
        exact listens
      rw [if_pos hears, if_pos ⟨mixes, listens⟩]
      exact congrArg (· ++ _) muxBuffer
    · have deaf : ¬ ((m.take (samples * 2)).running && (m.take (samples * 2)).canHear) = true := by
        rw [running, canHear, Bool.and_eq_true]
        exact listens
      rw [if_neg deaf, if_neg fun both => listens both.2, append_nil]
      exact muxBuffer
  · rw [if_neg mixes, if_neg fun both => mixes both.1, append_nil]
    exact ⟨_, there, muxBuffer⟩

theorem frameBytes_length (frame : Nat → Int) : (frameBytes big samples frame).length = samples * 2 := by
  have two (v : Nat) : (Bytes.bytes16 big v).length = 2 := by cases big <;> rfl
  simp [frameBytes, length_flatMap, two]

theorem frameBytes_congr {frame frame' : Nat → Int} (same : ∀ x < samples, frame x = frame' x) :
    frameBytes big samples frame = frameBytes big samples frame' := by
  unfold frameBytes
  rw [flatMap_def, flatMap_def]
  congr 1
  exact map_congr_left fun x member => by rw [same x (mem_range.mp member)]

end Mixing

/-! ### Without relationships -/

section Unrelated

variable {big : Bool} {samples : Nat} {conf : Conference}

/-- The sum of the samples `x` read from the running members other than the one at `k`. -/
def Conference.others (conf : Conference) (big : Bool) (samples k x : Nat) : Int :=
  (((conf.members.eraseIdx k).filter fun m => m.running && m.supplies samples).map
    fun m => m.offered big samples x).sum

theorem int32_others (few : conf.members.length < 2 ^ 16) (k x : Nat) :
    int32 (conf.others big samples k x) = conf.others big samples k x := by
  have bounds := sum_bounds (l := (conf.members.eraseIdx k).filter fun m =>
      m.running && m.supplies samples) (f := fun m => m.offered big samples x)
    (fun m _ => (sampleAt_bounds (m.audioBuffer.take (samples * 2)) x).1)
    (fun m _ => (sampleAt_bounds (m.audioBuffer.take (samples * 2)) x).2.le)
  have count : ((conf.members.eraseIdx k).filter fun m =>
      m.running && m.supplies samples).length ≤ conf.members.length :=
    (length_filter_le _ _).trans (length_eraseIdx_le _ _)
  unfold others
  apply int32_eq <;> omega

theorem share_unrelated (unrelated : ∀ m ∈ conf.members, m.relationships = []) {o : ConfMember}
    (listener : o ∈ conf.members) (x : Nat) {m : ConfMember} (member : m ∈ conf.members) :
    conf.share big samples o x m =
      if m.running && m.supplies samples then m.offered big samples x else 0 := by
  have heard : silences m o = false := by
    simp [silences, unrelated m member, unrelated o listener]
  cases running : m.running <;> cases supplies : m.supplies samples <;>
    simp [share, gain, running, supplies, heard]

/-- **Where everybody hears the others**: in a pass in which a running member supplies a frame, and
without relationships, each member that runs and can hear gets one frame, the clamped sum of the
frames of the other running members, exactly when the number of frames read is not a multiple of 256,
or there is no such member. -/
theorem mixed_frames_iff (few : conf.members.length < 2 ^ 16)
    (unrelated : ∀ m ∈ conf.members, m.relationships = [])
    (supplied : ∃ m ∈ conf.members, m.running = true ∧ m.supplies samples = true) :
    (∀ k m, conf.members[k]? = some m → m.running = true → m.canHear = true →
      ∃ m', (conf.pass big samples none).members[k]? = some m' ∧
        m'.muxBuffer = m.muxBuffer ++
          frameBytes big samples fun x => normalizeTo16bit (conf.others big samples k x)) ↔
      conf.members.countP (·.supplies samples) % 2 ^ 8 ≠ 0 ∨
        ∀ m ∈ conf.members, ¬ (m.running = true ∧ m.canHear = true) := by
  constructor
  · intro heard
    by_contra neither
    rw [not_or] at neither
    obtain ⟨zero, listener⟩ := neither
    push Not at listener
    obtain ⟨m, member, running, canHear⟩ := listener
    obtain ⟨k, here⟩ := getElem?_of_mem member
    obtain ⟨m', there, gets⟩ := heard k m here running canHear
    obtain ⟨m'', there', nothing⟩ := pass_muxBuffer big samples none here
    obtain rfl := Option.some.inj (there.symm.trans there')
    rw [if_neg (by simpa using fun mixes => absurd mixes zero), append_nil] at nothing
    have empty := congrArg List.length (nothing.symm.trans gets)
    rw [length_append, frameBytes_length] at empty
    obtain ⟨speaker, -, -, supplies⟩ := supplied
    have positive : samples ≠ 0 := by
      simp only [ConfMember.supplies, Bool.and_eq_true, decide_eq_true_eq] at supplies
      exact supplies.2
    omega
  · intro either k m here running canHear
    have member : m ∈ conf.members := mem_of_getElem? here
    have mixes : conf.members.countP (·.supplies samples) % 2 ^ 8 ≠ 0 := by
      rcases either with mixes | nobody
      · exact mixes
      · exact absurd ⟨running, canHear⟩ (nobody m member)
    obtain ⟨m', there, gets⟩ := pass_muxBuffer big samples none here
    refine ⟨m', there, ?_⟩
    rw [gets, if_pos ⟨.inl mixes, running, canHear⟩]
    congr 1
    refine frameBytes_congr fun x inside => ?_
    rw [mixed_eq here running inside, mainInit, zero_add, ← int32_others few, others,
      sum_filter]
    congr 3
    refine map_congr_left fun other inList => ?_
    exact share_unrelated unrelated member x (mem_of_mem_eraseIdx inList)

end Unrelated

def talker : ConfMember := ⟨1, true, true, false, [5#8, 0#8], [], [], 0, []⟩

/-- The instance of two talkers. -/
theorem mixed_frames_two : let conf : Conference := ⟨[talker, talker], 0⟩
    (∀ k m, conf.members[k]? = some m → m.running = true → m.canHear = true →
      ∃ m', (conf.pass false 1 none).members[k]? = some m' ∧ m'.muxBuffer = m.muxBuffer ++
          frameBytes false 1 fun x => normalizeTo16bit (conf.others false 1 k x)) ↔
      conf.members.countP (·.supplies 1) % 2 ^ 8 ≠ 0 ∨
        ∀ m ∈ conf.members, ¬ (m.running = true ∧ m.canHear = true) :=
  mixed_frames_iff (by decide) (by decide) (by decide)

/-- **With 256 talkers nobody hears anything**: the counter `ready` is zero again. -/
theorem crowd_hears_nothing : let conf : Conference := ⟨List.replicate 256 talker, 0⟩
    ∀ (k : Nat) (m : ConfMember), conf.members[k]? = some m →
      m.running = true ∧ m.canHear = true ∧ m.supplies 1 = true ∧
        ∃ m', (conf.pass false 1 none).members[k]? = some m' ∧ m'.muxBuffer = m.muxBuffer := by
  intro conf k m here
  have one : talker.supplies 1 = true := by decide
  obtain rfl : m = talker := eq_of_mem_replicate (mem_of_getElem? here)
  obtain ⟨m', there, gets⟩ := pass_muxBuffer false 1 none here
  refine ⟨rfl, rfl, one, m', there, ?_⟩
  have all : conf.members.countP (·.supplies 1) = 256 := by
    show (List.replicate 256 talker).countP _ = 256
    rw [countP_replicate, if_pos one]
  rw [gets, all, if_neg (by decide), append_nil]

end FreeSwitch
