/-
**Relationships are enforced.**

What a member hears of another one in a pass of the mixer, after any run of the calls that relate
members.

* `relationships_enforced`: who is heard, and who is not;
* `silenced_but_heard`, `heard_after_two_calls`, `unheard_before_flags`: three ways for it to go
  wrong.
-/

import FreeSwitch.Conference.RelateSound

namespace FreeSwitch

open Conference List RelateWorld Run Wrapped

/-! ### What is heard -/

/-- What the member at the place `b` has been sent, after a pass. -/
def Conference.heard (conf : Conference) (big : Bool) (samples : Nat) (file : Option FileAudio)
    (b : Nat) : Option (List (BitVec 8)) :=
  ((conf.pass big samples file).members[b]?).map (·.muxBuffer)

def ConfMember.withAudio (m : ConfMember) (audio : List (BitVec 8)) : ConfMember :=
  { m with audioBuffer := audio }

/-- The member at the place `a` has other audio. -/
def Conference.withAudio (conf : Conference) (a : Nat) (audio : List (BitVec 8)) : Conference :=
  { conf with members := conf.members.modify a (·.withAudio audio) }

def Conference.unrelated (conf : Conference) : Conference :=
  ⟨conf.members.map fun m => { m with relationships := [] }, 0⟩

def ConfMember.part (m : ConfMember) (big : Bool) (samples x : Nat) : Int :=
  if m.running && m.supplies samples then m.offered big samples x else 0

def Conference.sends (conf : Conference) (samples : Nat) (file : Option FileAudio) (o : ConfMember) :
    Bool :=
  (conf.members.countP (·.supplies samples) % 2 ^ 8 ≠ 0 || file.isSome) && (o.running && o.canHear)

/-- What the member has been sent after the samples `z`. -/
def ConfMember.sent (o : ConfMember) (sends big : Bool) (samples : Nat) (z : Nat → Int) :
    List (BitVec 8) :=
  o.muxBuffer ++
    if sends then frameBytes big samples fun x => normalizeTo16bit (int32 (z x)) else []

section Hearing

variable {big : Bool} {samples : Nat} {file : Option FileAudio} {conf : Conference} {a b : Nat}
  {m o : ConfMember} {audio : List (BitVec 8)}

theorem withAudio_members (speaker : conf.members[a]? = some m) :
    (conf.withAudio a audio).members = conf.members.set a (m.withAudio audio) := by
  obtain ⟨inside, here⟩ := List.getElem?_eq_some_iff.mp speaker
  rw [withAudio, modify_eq_set_getElem?, speaker]
  rfl

theorem supplies_withAudio (length : audio.length = m.audioBuffer.length) :
    (m.withAudio audio).supplies samples = m.supplies samples := by
  simp only [ConfMember.supplies, ConfMember.withAudio, length]

theorem countP_withAudio (speaker : conf.members[a]? = some m)
    (length : audio.length = m.audioBuffer.length) :
    (conf.withAudio a audio).members.countP (·.supplies samples) =
      conf.members.countP (·.supplies samples) := by
  obtain ⟨inside, rfl⟩ := List.getElem?_eq_some_iff.mp speaker
  rw [withAudio_members speaker, countP_set inside, supplies_withAudio length]
  have one : (if conf.members[a].supplies samples = true then 1 else 0) ≤
      conf.members.countP (·.supplies samples) := by
    split
    next supplies => exact countP_pos_iff.mpr ⟨_, getElem_mem inside, supplies⟩
    next => exact Nat.zero_le _
  omega

theorem share_withAudio (length : audio.length = m.audioBuffer.length) (x : Nat) :
    (conf.withAudio a audio).share big samples o x (m.withAudio audio) =
      if m.supplies samples then conf.gain m o * (m.withAudio audio).offered big samples x else 0 := by
  rw [share, supplies_withAudio length]
  rfl

theorem heard_eq (big : Bool) (samples : Nat) (file : Option FileAudio)
    (speaker : conf.members[a]? = some m) (listener : conf.members[b]? = some o) (differ : a ≠ b) :
    ∃ rest : Nat → Int, ∀ audio : List (BitVec 8), audio.length = m.audioBuffer.length →
      (conf.withAudio a audio).heard big samples file b =
        some (o.sent (conf.sends samples file o) big samples fun x => rest x +
          if m.supplies samples then
            conf.gain m o * (m.withAudio audio).offered big samples x else 0) := by
  refine ⟨fun x => mainInit big file x + ((conf.members.map (conf.share big samples o x)).sum -
    conf.share big samples o x m - conf.share big samples o x o), fun audio length => ?_⟩
  have here : (conf.withAudio a audio).members[b]? = some o := by
    rw [withAudio_members speaker, getElem?_set_ne differ, listener]
  obtain ⟨o', there, gets⟩ := pass_muxBuffer big samples file here
  rw [heard, there, Option.map_some, gets, countP_withAudio speaker length]
  unfold ConfMember.sent
  simp only [sends, Bool.and_eq_true, Bool.or_eq_true, decide_eq_true_eq]
  congr 2
  split
  next mixes =>
    refine frameBytes_congr fun x inside => ?_
    rw [mixed_eq here mixes.2.1 inside]
    -- the sum over the others is the whole sum without the listener's share
    have whole := sum_eraseIdx (f := (conf.withAudio a audio).share big samples o x) here
    rw [withAudio_members speaker, sum_set speaker, share_withAudio length] at whole
    have others : conf.share big samples o x = (conf.withAudio a audio).share big samples o x := rfl
    rw [others, withAudio_members speaker]
    congr 2
    linarith
  next => rfl

theorem gain_part (plain : conf.gain m o = if m.running then 1 else 0) (x : Nat) :
    (if m.supplies samples then conf.gain m o * (m.withAudio audio).offered big samples x else 0) =
      if m.running && m.supplies samples then (m.withAudio audio).offered big samples x else 0 := by
  rw [plain]
  cases m.running <;> cases m.supplies samples <;> simp

end Hearing

/-! ### After every run -/

/-- **Relationships are enforced** in every pass after a run in which no two calls between the same
members are in each other's way, between members for whom no call is about to set its flags. A member
that is silenced for another one, and is running if it has a frame, is not heard: any two contents of
its frame give the same. One that is not silenced adds its part to what is heard, as in the conference
without relationships. -/
theorem relationships_enforced {ops : List RelateOp}
    (alone : Along step Alone start ops) :
    let w := run step start ops
    ∀ (big : Bool) (samples : Nat) (file : Option FileAudio) (a b : Nat) (m o : ConfMember),
      w.conf.members[a]? = some m → w.conf.members[b]? = some o → a ≠ b →
      Unmarked w.calls m.id o.id → Unmarked w.calls o.id m.id →
        (w.Silenced m.id o.id → (m.supplies samples = true → m.running = true) →
          ∀ audio audio' : List (BitVec 8), audio.length = m.audioBuffer.length →
            audio'.length = m.audioBuffer.length →
              (w.conf.withAudio a audio).heard big samples file b =
                (w.conf.withAudio a audio').heard big samples file b) ∧
        (¬ w.Silenced m.id o.id → ∃ rest rest' : Nat → Int, ∀ audio : List (BitVec 8),
          audio.length = m.audioBuffer.length →
            (w.conf.withAudio a audio).heard big samples file b =
              some (o.sent (w.conf.sends samples file o) big samples fun x =>
                rest x + (m.withAudio audio).part big samples x) ∧
            (w.conf.unrelated.withAudio a audio).heard big samples file b =
              some (o.sent (w.conf.sends samples file o) big samples fun x =>
                rest' x + (m.withAudio audio).part big samples x)) := by
  intro w big samples file a b m o speaker listener differ unmarked unmarked'
  have sound : w.Sound := run_keeps sound_step sound_start alone
  have found := sound.silences_iff (mem_of_getElem? speaker) (mem_of_getElem? listener)
    unmarked unmarked'
  obtain ⟨rest, heard⟩ := heard_eq big samples file speaker listener differ
  constructor
  · intro silenced runs audio audio' length length'
    rw [heard audio length, heard audio' length']
    cases supplies : m.supplies samples with
    | false => simp only [Bool.false_eq_true, if_false]
    | true =>
      have silent : w.conf.gain m o = 0 := by
        rw [gain, if_pos (runs supplies), if_pos (found.mpr silenced), sub_self]
      simp only [silent, zero_mul]
  · intro audible
    have plain : w.conf.gain m o = if m.running then 1 else 0 := by
      rw [gain, if_neg fun both => audible (found.mp both), sub_zero]
    -- the same conference without relationships
    have speaker' : w.conf.unrelated.members[a]? = some { m with relationships := [] } := by
      simp [unrelated, speaker]
    have listener' : w.conf.unrelated.members[b]? = some { o with relationships := [] } := by
      simp [unrelated, listener]
    have sends : w.conf.unrelated.sends samples file { o with relationships := [] } =
        w.conf.sends samples file o := by
      unfold sends unrelated
      rw [countP_map]
      rfl
    obtain ⟨rest', heard'⟩ := heard_eq big samples file speaker' listener' differ
    refine ⟨rest, rest', fun audio length => ⟨?_, ?_⟩⟩
    · rw [heard audio length]
      simp only [gain_part plain, ConfMember.part, supplies_withAudio length]
      rfl
    · have plain' : w.conf.unrelated.gain { m with relationships := [] }
          { o with relationships := [] } = if m.running then 1 else 0 := by
        simp [gain, unrelated]
      rw [heard' audio length, sends]
      simp only [gain_part plain', ConfMember.part, supplies_withAudio length]
      rfl

def straggler : ConfMember := { talker with running := false }

def silencing (speaker : ConfMember) : List RelateOp :=
  [.join speaker, .join talker, .relate 0 "1" "2" "nospeak" true true,
    .proceed 0, .proceed 0, .proceed 0]

/-- The instance of a talker that is silenced. -/
theorem relationships_enforced_talker : let w := run step start (silencing talker)
    ∃ m o, w.conf.members[1]? = some m ∧ w.conf.members[0]? = some o ∧
      w.Silenced m.id o.id ∧ m.supplies 1 = true ∧ m.running = true ∧
      ∀ audio audio' : List (BitVec 8), audio.length = 2 → audio'.length = 2 →
        (w.conf.withAudio 1 audio).heard false 1 none 0 =
          (w.conf.withAudio 1 audio').heard false 1 none 0 := by
  intro w
  have alone : Along step Alone start (silencing talker) := by
    decide
  have members : w.conf.members =
      [{ talker with id := 2 }, { talker with relationships := [⟨0, 2, false, true⟩] }] := by decide
  have calls : w.calls = [] := by decide
  have unmarked (id oid : Nat) : Unmarked w.calls id oid := by
    rw [calls]
    exact fun call member => by cases member
  have speaker : w.conf.members[1]? =
      some { talker with relationships := [⟨0, 2, false, true⟩] } := by rw [members]; rfl
  have listener : w.conf.members[0]? = some { talker with id := 2 } := by rw [members]; rfl
  have silenced : w.Silenced 1 2 := by decide
  refine ⟨_, _, speaker, listener, silenced, rfl, rfl, fun audio audio' length length' => ?_⟩
  exact (relationships_enforced alone false 1 none 1 0 _ _ speaker listener (by decide)
    (unmarked _ _) (unmarked _ _)).1 silenced (fun _ => rfl) audio audio' length length'

/-- **A silenced member that is not running is heard**: its frame is taken away from the sum, to which
it was not added. -/
theorem silenced_but_heard : let w := run step start (silencing straggler)
    w.calls = [] ∧ w.Silenced 1 2 ∧ (w.conf.withAudio 1 [5#8, 0#8]).heard false 1 none 0 ≠
        (w.conf.withAudio 1 [6#8, 0#8]).heard false 1 none 0 := by
  decide

/-- **Two calls at once**: both add a relationship; when it is cleared, one stays in the list and
`relationship_total` is zero; and when the member is silenced again, it is heard. -/
theorem heard_after_two_calls :
    let nospeak (thread : Nat) : RelateOp :=
      .relate thread "1" "2" "nospeak" true true
    let w := run step start
      [.join talker, .join talker, nospeak 0, nospeak 1, .proceed 0, .proceed 1, .proceed 0,
        .proceed 1, .proceed 0, .proceed 1,
        .relate 0 "1" "2" "clear" true true, .proceed 0,
        nospeak 0, .proceed 0, .proceed 0]
    w.calls = [] ∧ w.Silenced 1 2 ∧
      (w.conf.withAudio 1 [5#8, 0#8]).heard false 1 none 0 ≠
        (w.conf.withAudio 1 [6#8, 0#8]).heard false 1 none 0 := by
  decide

/-- **A new relationship has no flag**: between its addition and the setting of its flags, a call that
only lets the first member not hear the second one also keeps the second from hearing the first. -/
theorem unheard_before_flags :
    let w := run step start
      [.join talker, .join talker, .relate 0 "1" "2" "nohear" true true,
        .proceed 0, .proceed 0]
    ¬ w.Silenced 1 2 ∧ (w.conf.withAudio 1 [5#8, 0#8]).heard false 1 none 0 =
      (w.conf.withAudio 1 [6#8, 0#8]).heard false 1 none 0 := by
  decide

end FreeSwitch
