/-
**The discipline of the media-bug list.**

A bug that leaves the list should be closed, once; one that is not selected for removal should stay,
in its place. `switch_core_media_bug_remove_all_function` closes the bugs it is asked for and empties
the list, and `switch_core_media_bug_remove_callback` takes out locked bugs, which are then not
closed.

* `bug_list_orderly_iff`: **the exact condition for a run**;
* `bugs_closed_once`: no bug is closed twice, in any run.
-/

import FreeSwitch.MediaBug.Session

namespace FreeSwitch

open BugOp BugSession CString List MediaBug Run

section Effects

variable {s s' : BugSession} {op : BugOp}

theorem shut_subset {bugs : List MediaBug} {a : Nat} (member : a ∈ shut bugs) :
    ∃ bp ∈ bugs, bp.addr = a := by
  obtain ⟨bp, inside, same⟩ := mem_map.mp member
  exact ⟨bp, (mem_filter.mp inside).1, same⟩

theorem BugOp.selects_takes {bp : MediaBug} (selected : op.selects bp = true) :
    op.takes bp = true := by
  cases op with
  | removeCallback callback self =>
    simp only [selects, takes, Bool.and_eq_true] at selected ⊢
    exact selected.1
  | removeAllFunction function self => rfl
  | _ => exact selected

theorem BugEffect.mem (effect : BugEffect s s' op) {bp : MediaBug} (member : bp ∈ s'.bugs) :
    (bp.addr = s.next ∧ bp.ready = true ∧ s.next < s'.next) ∨
      ∃ old ∈ s.bugs, op.takes old = false ∧ bp.addr = old.addr ∧ bp.callback = old.callback ∧
        bp.ready = old.ready := by
  obtain ⟨new, change, list, same, fresh⟩ := effect.list
  rw [list, mem_append, mem_map] at member
  rcases member with added | ⟨old, inside, rfl⟩
  · rcases fresh with rfl | ⟨bug, rfl, addr, ready, less⟩
    · cases added
    · obtain rfl := mem_singleton.mp added
      exact .inl ⟨addr, ready, less⟩
  · rw [mem_filter, Bool.not_eq_true'] at inside
    exact .inr ⟨old, inside.1, inside.2, same old⟩

theorem BugEffect.addrs_eq (effect : BugEffect s s' op) :
    ∃ new, s'.addrs = new ++ (s.bugs.filter (! op.takes ·)).map addr ∧
      (new = [] ∨ new = [s.next]) := by
  obtain ⟨new, change, list, same, fresh⟩ := effect.list
  refine ⟨new.map addr, ?_, ?_⟩
  · rw [addrs, list, map_append, map_map]
    exact congrArg _ (map_congr_left fun bp _ => (same bp).1)
  · rcases fresh with rfl | ⟨bug, rfl, addr, -, -⟩
    · exact .inl rfl
    · exact .inr (congrArg ([·]) addr)

theorem BugEffect.addrs_sublist (effect : BugEffect s s' op) :
    ((s.bugs.filter (! op.takes ·)).map addr).Sublist s'.addrs := by
  obtain ⟨new, list, -⟩ := effect.addrs_eq
  rw [list]
  exact sublist_append_right ..

theorem BugEffect.sound (effect : BugEffect s s' op) (sound : s.Sound) : s'.Sound where
  distinct := by
    obtain ⟨new, list, fresh⟩ := effect.addrs_eq
    have distinct : ((s.bugs.filter (! op.takes ·)).map addr).Nodup :=
      sound.distinct.sublist (filter_sublist.map _)
    rw [list]
    rcases fresh with rfl | rfl
    · exact distinct
    · refine nodup_cons.mpr ⟨fun member => ?_, distinct⟩
      obtain ⟨bp, inside, equal⟩ := mem_map.mp member
      have := sound.allocated bp (mem_filter.mp inside).1
      omega
  allocated := by
    intro bp member
    have more := effect.next
    rcases effect.mem member with ⟨addr, -, less⟩ | ⟨old, inside, -, addr, -, -⟩
    · omega
    · have := sound.allocated old inside
      omega
  ready := by
    intro bp member
    rcases effect.mem member with ⟨-, ready, -⟩ | ⟨old, inside, -, -, -, ready⟩
    · exact ready
    · rw [ready]
      exact sound.ready old inside
  closed := by
    intro a member
    have more := effect.next
    rw [effect.closes, mem_append] at member
    rcases member with before | now
    · have := sound.closed a before
      omega
    · obtain ⟨bp, inside, rfl⟩ := shut_subset now
      have := sound.allocated bp (mem_filter.mp inside).1
      omega
  opened := by
    intro bp member closed
    rw [effect.closes, mem_append] at closed
    rcases effect.mem member with ⟨addr, -, -⟩ | ⟨old, inside, kept, addr, -, -⟩
    · rcases closed with before | now
      · have := sound.closed _ before
        omega
      · obtain ⟨other, selected, same⟩ := shut_subset now
        have := sound.allocated other (mem_filter.mp selected).1
        omega
    · rw [addr] at closed
      rcases closed with before | now
      · exact sound.opened old inside before
      · obtain ⟨other, selected, same⟩ := shut_subset now
        obtain ⟨listed, selected⟩ := mem_filter.mp selected
        obtain rfl : other = old := inj_on_of_nodup_map sound.distinct listed inside same
        rw [selects_takes selected] at kept
        cases kept

theorem BugEffect.gone (effect : BugEffect s s' op) {a : Nat} (used : a < s.next) (absent : a ∉ s.addrs) :
    a ∉ s'.addrs ∧ s'.closes.count a = s.closes.count a := by
  constructor
  · intro present
    obtain ⟨bp, member, rfl⟩ := mem_map.mp present
    rcases effect.mem member with ⟨addr, -, -⟩ | ⟨old, inside, -, addr, -, -⟩
    · omega
    · exact absent (mem_map.mpr ⟨old, inside, addr.symm⟩)
  · have nothing : a ∉ shut (s.bugs.filter op.selects) := by
      intro now
      obtain ⟨bp, inside, rfl⟩ := shut_subset now
      exact absent (mem_map.mpr ⟨bp, (mem_filter.mp inside).1, rfl⟩)
    rw [effect.closes, count_append, count_eq_zero.mpr nothing, Nat.add_zero]

end Effects

/-! ### Orderly runs -/

/-- The bug at `a` is selected by no step of the run. -/
def Spared (s : BugSession) (ops : List BugOp) (a : Nat) : Prop :=
  Along step (fun s op => ∀ bp ∈ s.bugs, bp.addr = a → op.selects bp = false) s ops

/-- From `s` to the end of the run, every bug with a callback that has left the list was closed
exactly once, and those spared are still there, in order. -/
structure BugsOrderly (s : BugSession) (ops : List BugOp) : Prop where
  closed : ∀ bp ∈ s.bugs, bp.addr ∉ (run step s ops).addrs → bp.callback.isSome = true →
    (run step s ops).closes.count bp.addr = 1
  stays : ∀ addrs : List Nat, addrs.Sublist s.addrs → (∀ a ∈ addrs, Spared s ops a) →
    addrs.Sublist (run step s ops).addrs

/-- `switch_core_media_bug_remove_callback` finds no locked bug to take out, and
`switch_core_media_bug_remove_all_function` selects every bug of the list. -/
def Selective (s : BugSession) : BugOp → Prop
  | .removeCallback callback self =>
    ∀ bp ∈ s.bugs, bp.callback = callback → bp.free self = true → bp.flags.lock = false
  | .removeAllFunction function self =>
    ∀ bp ∈ s.bugs, (removeAllFunction function self).selects bp = true
  | _ => True

section BugsOrderly

variable {s : BugSession} {op : BugOp}

theorem selective_iff :
    Selective s op ↔ ∀ bp ∈ s.bugs, op.takes bp = true → op.selects bp = true := by
  cases op with
  | removeCallback callback self =>
    simp only [Selective, takes, selects, Bool.and_eq_true, decide_eq_true_eq,
      Bool.not_eq_true']
    exact ⟨fun all bp member took => ⟨took, all bp member took.1 took.2⟩,
      fun all bp member called free => (all bp member ⟨called, free⟩).2⟩
  | removeAllFunction function self => simp [Selective, takes]
  | _ => exact ⟨fun _ bp _ taken => taken, fun _ => trivial⟩

theorem closed_step (sound : s.Sound) (selective : Selective s op) {bp : MediaBug}
    (member : bp ∈ s.bugs) (left : bp.addr ∉ (s.step op).addrs) (called : bp.callback.isSome = true) :
    (s.step op).closes.count bp.addr = 1 := by
  have effect := step_effect sound op
  have taken : op.takes bp = true := by
    by_contra kept
    refine left (effect.addrs_sublist.mem (mem_map.mpr ⟨bp, ?_, rfl⟩))
    rw [mem_filter]
    exact ⟨member, by simpa using kept⟩
  have selected := selective_iff.mp selective bp member taken
  have once : (shut (s.bugs.filter op.selects)).count bp.addr = 1 := by
    apply count_eq_one_of_mem
    · refine sound.distinct.sublist (List.Sublist.map addr ?_)
      exact filter_sublist.trans filter_sublist
    · refine mem_map.mpr ⟨bp, ?_, rfl⟩
      rw [mem_filter, mem_filter]
      exact ⟨⟨member, selected⟩, called⟩
  rw [effect.closes, count_append, count_eq_zero.mpr (sound.opened bp member), once]

theorem stays_step (sound : s.Sound) (selective : Selective s op) {addrs : List Nat}
    (part : addrs.Sublist s.addrs)
    (spared : ∀ a ∈ addrs, ∀ bp ∈ s.bugs, bp.addr = a → op.selects bp = false) :
    addrs.Sublist (s.step op).addrs := by
  have effect := step_effect sound op
  refine List.Sublist.trans ?_ effect.addrs_sublist
  -- the addresses of the bugs that are kept, by a test on addresses
  let kept : Nat → Bool := fun a => a ∈ (s.bugs.filter (! op.takes ·)).map addr
  have same : s.addrs.filter kept = (s.bugs.filter (! op.takes ·)).map addr := by
    rw [BugSession.addrs, filter_map]
    congr 1
    refine filter_congr fun bp member => ?_
    cases taken : op.takes bp with
    | false =>
      have listed : bp ∈ s.bugs.filter (! op.takes ·) := by
        rw [mem_filter, taken]
        exact ⟨member, rfl⟩
      exact decide_eq_true (mem_map.mpr ⟨bp, listed, rfl⟩)
    | true =>
      refine decide_eq_false fun listed => ?_
      obtain ⟨other, inside, equal⟩ := mem_map.mp listed
      rw [mem_filter] at inside
      obtain rfl : other = bp := inj_on_of_nodup_map sound.distinct inside.1 member equal
      rw [taken] at inside
      exact Bool.false_ne_true inside.2
  have all : addrs.filter kept = addrs := by
    refine filter_eq_self.mpr fun a listed => ?_
    obtain ⟨bp, member, rfl⟩ := mem_map.mp (part.mem listed)
    refine decide_eq_true (mem_map.mpr ⟨bp, ?_, rfl⟩)
    rw [mem_filter]
    refine ⟨member, ?_⟩
    by_contra taken
    have selected := selective_iff.mp selective bp member (by simpa using taken)
    rw [spared _ listed bp member rfl] at selected
    cases selected
  rw [← same, ← all]
  exact part.filter kept

theorem sound_run (sound : s.Sound) (ops : List BugOp) : (run step s ops).Sound :=
  run_keeps_all (P := Sound) (fun _ op sound => (step_effect sound op).sound sound)
    sound ops

theorem gone_run (sound : s.Sound) {a : Nat} (used : a < s.next) (absent : a ∉ s.addrs)
    (ops : List BugOp) :
    a ∉ (run step s ops).addrs ∧
      (run step s ops).closes.count a = s.closes.count a := by
  induction ops generalizing s with
  | nil => exact ⟨absent, rfl⟩
  | cons op ops ih =>
    have effect := step_effect sound op
    obtain ⟨absent', count⟩ := effect.gone used absent
    obtain ⟨absent'', count'⟩ := ih (effect.sound sound) (used.trans_le effect.next) absent'
    exact ⟨absent'', count'.trans count⟩

theorem orderly_run (sound : s.Sound) {ops : List BugOp}
    (selective : Along step Selective s ops) : BugsOrderly s ops := by
  induction ops generalizing s with
  | nil =>
    exact ⟨fun bp member left _ => absurd (mem_map.mpr ⟨bp, member, rfl⟩) left,
      fun _ part _ => part⟩
  | cons op ops ih =>
    have effect := step_effect sound op
    have later := ih (effect.sound sound) selective.2
    constructor
    · intro bp member left called
      by_cases still : bp.addr ∈ (s.step op).addrs
      · -- it leaves later, and is the same bug until then
        obtain ⟨bp', member', addr⟩ := mem_map.mp still
        have called' : bp'.callback.isSome = true := by
          rcases effect.mem member' with ⟨new, -, -⟩ | ⟨old, inside, -, addr', callback, -⟩
          · have := sound.allocated bp member
            omega
          · obtain rfl : old = bp := inj_on_of_nodup_map sound.distinct inside member
              (addr'.symm.trans addr)
            rwa [callback]
        rw [← addr] at left ⊢
        exact later.closed bp' member' left called'
      · have once := closed_step sound selective.1 member still called
        have used := (sound.allocated bp member).trans_le effect.next
        exact (gone_run (effect.sound sound) used still ops).2.trans once
    · intro addrs part spared
      have next := stays_step sound selective.1 part fun a member => (spared a member).1
      exact later.stays addrs next fun a member => (spared a member).2

theorem selective_of_orderly (sound : s.Sound) (orderly : BugsOrderly s [op]) : Selective s op := by
  rw [selective_iff]
  intro bp member taken
  by_contra missed
  have effect := step_effect sound op
  have unique {other : MediaBug} (inside : other ∈ s.bugs) (same : other.addr = bp.addr) :
      other = bp := inj_on_of_nodup_map sound.distinct inside member same
  have spared : Spared s [op] bp.addr := by
    refine ⟨fun other inside same => ?_, trivial⟩
    rw [unique inside same]
    simpa using missed
  have part : [bp.addr].Sublist s.addrs :=
    singleton_sublist.mpr (mem_map.mpr ⟨bp, member, rfl⟩)
  have stays := orderly.stays [bp.addr] part fun a inside => mem_singleton.mp inside ▸ spared
  obtain ⟨bp', member', addr⟩ := mem_map.mp (singleton_sublist.mp stays)
  rcases effect.mem member' with ⟨new, -, -⟩ | ⟨old, inside, kept, addr', -, -⟩
  · have := sound.allocated bp member
    omega
  · rw [unique inside (addr'.symm.trans addr), taken] at kept
    cases kept

end BugsOrderly

theorem sound_fresh : fresh.Sound :=
  ⟨nodup_nil, nofun, nofun, nofun, nofun⟩

/-- **The discipline of the list**: every part of a run is orderly exactly when every
`switch_core_media_bug_remove_callback` finds no locked bug, and every
`switch_core_media_bug_remove_all_function` is for all the bugs of the list. -/
theorem bug_list_orderly_iff (ops : List BugOp) :
    (∀ done more, done ++ more <+: ops → BugsOrderly (run step .fresh done) more) ↔
      Along step Selective .fresh ops := by
  constructor
  · intro orderly
    rw [along_iff_splits]
    intro done op begins
    exact selective_of_orderly (sound_run sound_fresh done) (orderly done [op] begins)
  · intro selective done more begins
    exact orderly_run (sound_run sound_fresh done) (selective.beginning begins).ending

def plainRequest (function : Text) (callback : Nat) : BugRequest :=
  ⟨some function, some callback, ⟨false, false, false, false, false, false⟩, 1, true, true⟩

/-- **A bug of another function is lost**: with a recording and an eavesdropper in the list,
`switch_core_media_bug_remove_all_function` for recordings closes the one, and takes the other one
out of the list as well. -/
theorem other_function_lost :
    let s := run step .fresh
      [.add (plainRequest "eavesdrop" 7), .add (plainRequest "session_record" 8)]
    let t := s.step (.removeAllFunction (some "session_record") 1)
    s.addrs = [1, 0] ∧ t.addrs = [] ∧ t.closes = [1] ∧
      ∀ bp ∈ s.bugs, bp.addr = 0 →
        (removeAllFunction (some "session_record") 1).selects bp = false := by
  decide

theorem closes_step {s : BugSession} (sound : s.Sound) (once : s.closes.Nodup) (op : BugOp) :
    (s.step op).closes.Nodup := by
  rw [(step_effect sound op).closes, nodup_append']
  refine ⟨once, sound.distinct.sublist ?_, fun a before now => ?_⟩
  · exact (filter_sublist.trans filter_sublist).map addr
  · obtain ⟨bp, inside, rfl⟩ := shut_subset now
    exact sound.opened bp (mem_filter.mp inside).1 before

/-- **No bug is closed twice**, and none that is in the list, whatever is called in which order; and a
bug that has left the list does not come back and is not closed any more. -/
theorem bugs_closed_once (done more : List BugOp) :
    let s := run step .fresh done
    let t := run step s more
    t.closes.Nodup ∧ (∀ bp ∈ t.bugs, bp.addr ∉ t.closes) ∧
      ∀ a < s.next, a ∉ s.addrs → a ∉ t.addrs ∧ (a ∈ t.closes ↔ a ∈ s.closes) := by
  intro s t
  have sound : s.Sound := sound_run sound_fresh done
  have later : t.Sound ∧ t.closes.Nodup := by
    have whole : t = run step .fresh (done ++ more) := (run_append ..).symm
    rw [whole]
    exact run_keeps_all (P := fun s : BugSession => s.Sound ∧ s.closes.Nodup)
      (fun _ op inv => ⟨(step_effect inv.1 op).sound inv.1, closes_step inv.1 inv.2 op⟩)
      ⟨sound_fresh, nodup_nil⟩ _
  refine ⟨later.2, later.1.opened, fun a used absent => ?_⟩
  obtain ⟨gone, count⟩ := gone_run sound used absent more
  refine ⟨gone, ?_⟩
  rw [← count_pos_iff, ← count_pos_iff, count]

end FreeSwitch
