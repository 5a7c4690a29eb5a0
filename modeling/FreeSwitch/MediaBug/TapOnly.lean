/-
**The flag for sessions that are only tapped.**

`SSF_MEDIA_BUG_TAP_ONLY` is to say that every bug of a session is a tap of the native frames, which
then need not be decoded. `switch_core_media_bug_add` looks through the list to set or clear it.
`switch_core_media_bug_remove` looks through the list too, but from a `tap_only` of zero, and always
clears it.

* `tap_only_right_iff`: in which runs the flag is right.
-/

import FreeSwitch.MediaBug.Discipline

namespace FreeSwitch

open CString List Run Unlink

structure TapSession where
  session : BugSession
  tapOnly : Bool
deriving DecidableEq

def MediaBug.tap (bp : MediaBug) : Bool := bp.flags.tapNativeRead || bp.flags.tapNativeWrite

/-- The loop over the list, from the `tap_only` of the caller. -/
def tapScan (tapOnly : Bool) (bugs : List MediaBug) : Bool :=
  bugs.foldl (fun tapOnly bp =>
    if bp.ready && !bp.flags.tapNativeRead && !bp.flags.tapNativeWrite then false else tapOnly) tapOnly

/-- `switch_core_media_bug_add`, with the flag. -/
def TapSession.add (s : TapSession) (request : BugRequest) : TapSession :=
  match mediaBugAdd s.session request with
  | (.success, session) => ⟨session, tapScan true session.bugs⟩
  | (_, session) => ⟨session, s.tapOnly⟩

/-- `switch_core_media_bug_remove`, with the flag. A bug taken out earlier was not locked. -/
def TapSession.remove (s : TapSession) (bug self : Nat) : TapSession :=
  if s.session.bugs.any fun bp => bp.addr = bug && bp.flags.lock then s
  else
    let session := (mediaBugRemove s.session bug self).2
    ⟨session, tapScan false session.bugs⟩

inductive TapOp
  | add (request : BugRequest)
  | remove (bug self : Nat)
deriving DecidableEq

def TapSession.step (s : TapSession) : TapOp → TapSession
  | .add request => s.add request
  | .remove bug self => s.remove bug self

def TapSession.fresh : TapSession := ⟨.fresh, false⟩

/-- **The flag is right**: if a bug is ready, it says whether all ready ones are taps. -/
def TapSession.Right (s : TapSession) : Prop :=
  (∃ bp ∈ s.session.bugs, bp.ready = true) →
    (s.tapOnly = true ↔ ∀ bp ∈ s.session.bugs, bp.ready = true → bp.tap = true)

/-- The bugs that a removal of `bug` by the thread `self` leaves. -/
def TapSession.others (s : TapSession) (bug self : Nat) : List MediaBug :=
  s.session.bugs.filter fun bp => !(bp.free self && bp.addr = bug)

/-- A removal is refused, leaves no bug, or leaves one that is no tap. -/
def TapSession.Clears (s : TapSession) : TapOp → Prop
  | .add _ => True
  | .remove bug self =>
    (∃ bp ∈ s.session.bugs, bp.addr = bug ∧ bp.flags.lock = true) ∨
      s.others bug self = [] ∨ ∃ bp ∈ s.others bug self, bp.tap = false

open TapSession

theorem tapScan_eq (tapOnly : Bool) (bugs : List MediaBug) :
    tapScan tapOnly bugs = (tapOnly && bugs.all fun bp => !bp.ready || bp.tap) := by
  induction bugs generalizing tapOnly with
  | nil => rw [tapScan, foldl_nil, all_nil, Bool.and_true]
  | cons bp bugs ih =>
    rw [tapScan, foldl_cons, ← tapScan, ih, all_cons, MediaBug.tap]
    cases bp.ready <;> cases bp.flags.tapNativeRead <;> cases bp.flags.tapNativeWrite <;> simp

theorem tapScan_true (bugs : List MediaBug) :
    tapScan true bugs = true ↔ ∀ bp ∈ bugs, bp.ready = true → bp.tap = true := by
  rw [tapScan_eq, Bool.true_and, all_eq_true]
  refine forall₂_congr fun bp _ => ?_
  cases bp.ready <;> simp

theorem tapScan_false (bugs : List MediaBug) : tapScan false bugs = false := by
  rw [tapScan_eq, Bool.false_and]

theorem mediaBugAdd_refused {s : BugSession} {request : BugRequest}
    (refused : (mediaBugAdd s request).1 ≠ .success) : (mediaBugAdd s request).2.bugs = s.bugs := by
  unfold mediaBugAdd at refused ⊢
  dsimp only at refused ⊢
  split
  · rfl
  split
  · rfl
  split
  · rfl
  next punted ready accepted =>
    rw [if_neg punted, if_neg ready, if_neg accepted] at refused
    exact absurd rfl refused

theorem right_add {s : TapSession} (request : BugRequest) (right : s.Right) :
    (s.add request).Right := by
  unfold add
  split
  next session added => exact fun _ => tapScan_true session.bugs
  next status session refused added =>
    have same : session.bugs = s.session.bugs := by
      have kept := @mediaBugAdd_refused s.session request
      rw [added] at kept
      exact kept refused
    unfold Right
    rw [same]
    exact right

theorem remove_bugs {s : TapSession} (sound : s.session.Sound) {bug self : Nat}
    (unlocked : ¬ s.session.bugs.any fun bp => bp.addr = bug && bp.flags.lock) :
    (s.remove bug self).session.bugs = s.others bug self := by
  rw [remove, if_neg unlocked, mediaBugRemove, if_neg unlocked, others]
  have ready : ∀ bp ∈ s.session.bugs, (bp.free self && bp.ready && decide (bp.addr = bug)) =
      (bp.free self && decide (bp.addr = bug)) := by
    intro bp member
    rw [sound.ready bp member, Bool.and_true]
  rcases unlinkFirst_spec sound.distinct (.inl rfl) with
    ⟨absent, found⟩ | ⟨front, a, back, last, whole, -, here, found, -⟩
  · rw [found]
    refine (filter_eq_self.mpr fun bp member => ?_).symm
    rw [← ready bp member, absent bp member]
    rfl
  · rw [found]
    rw [ready a (by simp [whole])] at here
    have own : a.addr = bug := by simpa using (Bool.and_eq_true_iff.mp here).2
    have apart : ∀ bp ∈ front ++ back, (bp.free self && decide (bp.addr = bug)) = false := by
      intro bp member
      simp [← own, sound.unique whole bp member]
    have kept := (filter_only (p := fun bp : MediaBug => bp.free self && bp.addr = bug) here apart).2
    rw [← whole] at kept
    exact kept.symm

theorem right_remove_iff {s : TapSession} {bug self : Nat} (sound : s.session.Sound)
    (right : s.Right) : (s.remove bug self).Right ↔ s.Clears (.remove bug self) := by
  rw [Clears]
  by_cases locked : s.session.bugs.any fun bp => bp.addr = bug && bp.flags.lock
  · have refused : s.remove bug self = s := if_pos locked
    rw [refused]
    exact ⟨fun _ => .inl (by simpa using locked), fun _ => right⟩
  · have unlocked : ¬ ∃ bp ∈ s.session.bugs, bp.addr = bug ∧ bp.flags.lock = true := by
      simpa using locked
    have cleared : (s.remove bug self).tapOnly = false := by
      rw [remove, if_neg locked]
      exact tapScan_false _
    have ready : ∀ bp ∈ s.others bug self, bp.ready = true := fun bp member =>
      sound.ready bp (mem_of_mem_filter member)
    rw [or_iff_right unlocked, Right, cleared, remove_bugs sound locked]
    constructor
    · intro right
      by_contra! taps
      obtain ⟨bp, member⟩ := exists_mem_of_ne_nil _ taps.1
      refine Bool.false_ne_true ((right ⟨bp, member, ready bp member⟩).mpr fun bp member _ => ?_)
      exact Bool.eq_true_of_not_eq_false (taps.2 bp member)
    · rintro (none | ⟨bp, member, noTap⟩)
      · simp [none]
      · refine fun _ => iff_of_false Bool.false_ne_true fun taps => ?_
        rw [taps bp member (ready bp member)] at noTap
        cases noTap

theorem tapSession_sound {s : TapSession} (sound : s.session.Sound) (op : TapOp) :
    (s.step op).session.Sound := by
  cases op with
  | add request =>
    have added := (add_effect request).sound sound
    show (s.add request).session.Sound
    unfold add
    split
    all_goals
      next is => rwa [is] at added
  | remove bug self =>
    show (s.remove bug self).session.Sound
    unfold remove
    split
    · exact sound
    · exact (remove_effect sound bug self).sound sound

/-- **When the flag is right**: it is so in every state of a run of
`switch_core_media_bug_add` and `switch_core_media_bug_remove` exactly when every removal that is
not refused leaves no bug, or one that is no tap. -/
theorem tap_only_right_iff (ops : List TapOp) :
    (∀ done, done <+: ops → (run step .fresh done).Right) ↔
      Along step Clears .fresh ops := by
  refine always_iff_along (I := fun s => s.session.Sound) (fun _ op sound => tapSession_sound sound op)
    (fun s op sound right => ?_) sound_fresh ?_
  · cases op with
    | add request => exact iff_of_true (right_add request right) trivial
    | remove bug self => exact right_remove_iff sound right
  · rintro ⟨bp, member, -⟩
    cases member

def tapRequest : BugRequest :=
  ⟨some "tap", some 7, ⟨false, false, false, false, true, false⟩, 1, true, true⟩

/-- **A tap is left, and the flag is cleared.** -/
theorem tap_left_behind :
    let s := run step .fresh [.add tapRequest, .add tapRequest, .remove 0 1]
    s.session.addrs = [1] ∧ (∀ bp ∈ s.session.bugs, bp.ready = true ∧ bp.tap = true) ∧
      s.tapOnly = false := by
  decide

end FreeSwitch
