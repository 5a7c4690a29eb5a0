/-
**Pruning while other threads set the flag.**

`switch_core_media_bug_prune` lets go of the lock to close each bug that it has taken out, and
another thread may set `SMBF_PRUNE` in the meantime. The walk then begins again at the head of the
list, but with the `last` of the walk before. That does no harm unless the flag was set on the first
bug of the list: it is then "taken out" behind `last`, stays where it is, and is closed again and
again.

* `prune_exact_iff`: the call returns, with each bug closed once, exactly when this does not happen.
-/

import FreeSwitch.MediaBug.Session

namespace FreeSwitch

open List MediaBug Run Unlink

/-- A pass of `switch_core_media_bug_prune`, from `top` to the next `top`, or a step of another
thread between two. -/
inductive PruneStep
  | pass
  | flag (bug : Nat)
deriving DecidableEq

/-- The call: its session and variables, whether it has returned, the bugs it has closed, and those
flagged meanwhile. -/
structure PruneCall where
  session : BugSession
  last : Option Nat
  ttl : Nat
  returned : Bool
  closed : List Nat
  flagged : List Nat
deriving DecidableEq

def PruneCall.begin (s : BugSession) : PruneCall := ⟨s, none, 0, false, [], []⟩

def PruneCall.pass (c : PruneCall) (self : Nat) : PruneCall :=
  match unlinkFirst addr (·.flags.prune) c.session.bugs c.last c.session.bugs with
  | none => { c with returned := true }
  | some (bp, bugs, last) =>
    let (status, closes) := mediaBugClose self bp.release c.session.closes
    { c with
      session := { c.session with bugs := bugs, closes := closes }
      last := last
      ttl := c.ttl + 1
      closed := if status = .success then c.closed ++ [bp.addr] else c.closed }

/-- `SMBF_PRUNE` alone. -/
def pruneFlag : BugFlags := ⟨false, true, false, false, false, false⟩

def PruneCall.flag (c : PruneCall) (bug : Nat) : PruneCall :=
  { c with session := mediaBugSetFlag c.session bug pruneFlag, flagged := bug :: c.flagged }

def PruneCall.step (self : Nat) (c : PruneCall) (step : PruneStep) : PruneCall :=
  if c.returned then c
  else
    match step with
    | .pass => c.pass self
    | .flag bug => c.flag bug

open PruneCall

section Step

variable {c : PruneCall} {self : Nat}

theorem step_returned (returned : c.returned = true) {step : PruneStep} :
    c.step self step = c := if_pos returned

theorem step_pass (goes : c.returned = false) : c.step self .pass = c.pass self :=
  if_neg (Bool.eq_false_iff.mp goes)

theorem step_flag (goes : c.returned = false) (bug : Nat) : c.step self (.flag bug) = c.flag bug :=
  if_neg (Bool.eq_false_iff.mp goes)

theorem returned_run (returned : c.returned = true) (steps : List PruneStep) :
    run (step self) c steps = c := by
  refine run_keeps_all (P := (· = c)) (fun d step same => ?_) rfl steps
  rw [same, step_returned returned]

end Step

def PruneCall.marked (c : PruneCall) (bp : MediaBug) : Bool :=
  bp.flags.prune || c.flagged.contains bp.addr

/-- **What the call is for**: it returns, the bugs without the flag are left, in order, and each
other one was closed once. -/
structure PruneCall.Exact (s : BugSession) (c : PruneCall) : Prop where
  returned : c.returned = true
  linked : c.session.bugs = s.bugs.filter (! c.marked ·)
  closed : c.closed.Perm ((s.bugs.filter c.marked).map addr)

/-- The flag is not set on the first bug while `last` points to one. -/
def PruneCall.Spares (c : PruneCall) : PruneStep → Prop
  | .pass => True
  | .flag bug => c.returned = true ∨ c.last = none ∨ ∀ bp ∈ c.session.bugs.head?, bp.addr ≠ bug

instance decidableSpares (c : PruneCall) : (step : PruneStep) → Decidable (c.Spares step)
  | .pass => inferInstanceAs (Decidable True)
  | .flag bug => inferInstanceAs (Decidable (_ ∨ _ ∨ ∀ bp ∈ c.session.bugs.head?, bp.addr ≠ bug))

section Flagging

variable (bug : Nat)

/-- What becomes of a bug when `bug` is flagged. -/
def MediaBug.flagged : MediaBug → MediaBug :=
  modify bug fun flags =>
    { threadLock := flags.threadLock || pruneFlag.threadLock
      prune := flags.prune || pruneFlag.prune
      lock := (if pruneFlag.prune then false else flags.lock) || pruneFlag.lock
      oneOnly := flags.oneOnly || pruneFlag.oneOnly
      tapNativeRead := flags.tapNativeRead || pruneFlag.tapNativeRead
      tapNativeWrite := flags.tapNativeWrite || pruneFlag.tapNativeWrite }

@[simp] theorem flagged_addr (bp : MediaBug) : (bp.flagged bug).addr = bp.addr := by
  unfold MediaBug.flagged MediaBug.modify
  split <;> rfl

@[simp] theorem flagged_prune (bp : MediaBug) :
    (bp.flagged bug).flags.prune = (bp.flags.prune || bp.addr = bug) := by
  unfold MediaBug.flagged MediaBug.modify
  split
  next here => simp [here, pruneFlag]
  next other => simp [other]

theorem flagged_other {bp : MediaBug} (other : bp.addr ≠ bug) : bp.flagged bug = bp := if_neg other

theorem filter_or_perm {α : Type} (p q : α → Bool) (l : List α) :
    (l.filter fun a => p a || q a).Perm (l.filter p ++ (l.filter (! p ·)).filter q) := by
  refine (filter_append_perm p _).symm.trans (.of_eq ?_)
  rw [filter_filter, filter_filter, filter_filter]
  congr 1
  · exact filter_congr fun a _ => by cases p a <;> rfl
  · exact filter_congr fun a _ => by cases p a <;> cases q a <;> rfl

theorem unpruned_flagged (bugs : List MediaBug) :
    (bugs.map (flagged bug)).filter (! ·.flags.prune) =
      (bugs.filter (! ·.flags.prune)).filter (·.addr ≠ bug) := by
  rw [filter_map, filter_filter]
  have same : bugs.filter ((! ·.flags.prune) ∘ flagged bug) =
      bugs.filter fun bp => decide (bp.addr ≠ bug) && !bp.flags.prune :=
    filter_congr fun bp _ => by simp [Bool.and_comm]
  rw [same]
  refine (map_congr_left fun bp member => ?_).trans (map_id _)
  have here := (mem_filter.mp member).2
  rw [Bool.and_eq_true, decide_eq_true_eq] at here
  exact flagged_other bug here.1

theorem pruned_flagged (bugs : List MediaBug) :
    (((bugs.map (flagged bug)).filter (·.flags.prune)).map addr).Perm
      ((bugs.filter (·.flags.prune)).map addr ++
        ((bugs.filter (! ·.flags.prune)).filter (·.addr = bug)).map addr) := by
  have same : ((bugs.map (flagged bug)).filter (·.flags.prune)).map addr =
      (bugs.filter fun bp => bp.flags.prune || bp.addr = bug).map addr := by
    rw [filter_map, map_map]
    have kept : addr ∘ flagged bug = addr := funext (flagged_addr bug)
    rw [kept]
    congr 1
    exact filter_congr fun bp _ => flagged_prune bug bp
  rw [same, ← map_append]
  exact (filter_or_perm _ _ bugs).map _

end Flagging

section Held

variable {s : BugSession} {self : Nat} {c : PruneCall}

/-- **The invariant**: what is flagged is closed, or still to be closed. -/
structure PruneCall.Held (s : BugSession) (c : PruneCall) : Prop where
  distinct : c.session.addrs.Nodup
  linked : c.session.bugs.filter (! ·.flags.prune) = s.bugs.filter (! c.marked ·)
  closed : (c.closed ++ (c.session.bugs.filter (·.flags.prune)).map addr).Perm
    ((s.bugs.filter c.marked).map addr)
  ready : c.returned = false → Ready (fun bp : MediaBug => bp.flags.prune) c.last c.session.bugs
  finished : c.returned = true → ∀ bp ∈ c.session.bugs, bp.flags.prune = false

theorem pass_cases (self : Nat) (held : c.Held s) (goes : c.returned = false) :
    ((∀ bp ∈ c.session.bugs, bp.flags.prune = false) ∧ c.pass self = { c with returned := true }) ∨
    ∃ front bp back last closes, c.session.bugs = front ++ bp :: back ∧
      (∀ other ∈ front, other.flags.prune = false) ∧ bp.flags.prune = true ∧
      Ready (fun bp : MediaBug => bp.flags.prune) last (front ++ back) ∧
      c.pass self = { c with
        session := { c.session with bugs := front ++ back, closes := closes }
        last := last
        ttl := c.ttl + 1
        closed := c.closed ++ [bp.addr] } := by
  unfold PruneCall.pass
  rcases unlinkFirst_spec held.distinct (held.ready goes) with
    ⟨absent, found⟩ | ⟨front, bp, back, last, whole, skipped, here, found, ready⟩
  · rw [found]
    exact .inl ⟨absent, rfl⟩
  · rw [found]
    have released : (mediaBugClose self bp.release c.session.closes).1 = .success := by
      simp [mediaBugClose, release, free]
    refine .inr ⟨front, bp, back, last, (mediaBugClose self bp.release c.session.closes).2, whole,
      skipped, here, ready, ?_⟩
    dsimp only
    rw [if_pos released]

theorem held_pass (self : Nat) (held : c.Held s) (goes : c.returned = false) :
    (c.pass self).Held s := by
  rcases pass_cases self held goes with
    ⟨absent, same⟩ | ⟨front, bp, back, last, closes, whole, skipped, here, ready, same⟩
  · rw [same]
    exact { held with ready := nofun, finished := fun _ => absent }
  · rw [same]
    have kept : (front ++ bp :: back).filter (! ·.flags.prune) =
        (front ++ back).filter (! ·.flags.prune) := by
      simp [here]
    have taken : (front ++ bp :: back).filter (·.flags.prune) =
        bp :: (front ++ back).filter (·.flags.prune) := by
      have none : front.filter (·.flags.prune) = [] :=
        filter_eq_nil_iff.mpr fun other member => by simp [skipped other member]
      simp [here, none]
    refine ⟨?_, ?_, ?_, fun _ => ready, fun returned => ?_⟩
    · have distinct := held.distinct
      rw [BugSession.addrs, whole] at distinct
      have fewer := List.Sublist.append_left (sublist_cons_self bp back) front
      exact distinct.sublist (fewer.map addr)
    · rw [← kept, ← whole]
      exact held.linked
    · have closed := held.closed
      rw [whole, taken, map_cons] at closed
      rw [append_assoc]
      exact closed
    · rw [goes] at returned
      cases returned

theorem held_flag (held : c.Held s) (goes : c.returned = false) {bug : Nat}
    (spares : c.Spares (.flag bug)) : (c.flag bug).Held s := by
  have marked (bp : MediaBug) : (c.flag bug).marked bp = (c.marked bp || bp.addr = bug) := by
    simp [marked, flag, Bool.or_comm, Bool.or_left_comm, eq_comm]
  have list : (c.flag bug).session.bugs = c.session.bugs.map (flagged bug) := rfl
  refine ⟨?_, ?_, ?_, fun _ => ?_, fun returned => ?_⟩
  · have same : (c.flag bug).session.addrs = c.session.addrs := by
      rw [BugSession.addrs, list, map_map]
      exact map_congr_left fun bp _ => flagged_addr bug bp
    rw [same]
    exact held.distinct
  · rw [list, unpruned_flagged, held.linked, filter_filter]
    refine filter_congr fun bp _ => ?_
    rw [marked]
    cases c.marked bp <;> simp
  · have more : ((s.bugs.filter (c.flag bug).marked).map addr).Perm
        ((s.bugs.filter c.marked).map addr ++
          ((s.bugs.filter (! c.marked ·)).filter (·.addr = bug)).map addr) := by
      rw [funext marked, ← map_append]
      exact (filter_or_perm _ _ s.bugs).map _
    refine .trans ?_ more.symm
    rw [list]
    refine ((pruned_flagged bug c.session.bugs).append_left c.closed).trans ?_
    rw [← append_assoc, held.linked]
    exact held.closed.append_right _
  · rcases spares with returned | fresh | first
    · rw [goes] at returned
      cases returned
    · exact .inl fresh
    · rcases held.ready goes with fresh | quiet
      · exact .inl fresh
      · refine .inr fun bp member => ?_
        rw [list, head?_map] at member
        obtain ⟨old, isHead, rfl⟩ := Option.map_eq_some_iff.mp member
        rw [flagged_other bug (first old isHead)]
        exact quiet old isHead
  · exact absurd (goes.symm.trans returned) (by decide)

theorem held_step (c : PruneCall) (step : PruneStep) (held : c.Held s) (spares : c.Spares step) :
    (c.step self step).Held s := by
  cases goes : c.returned with
  | true => rwa [step_returned goes]
  | false =>
    cases step with
    | pass =>
      rw [step_pass goes]
      exact held_pass self held goes
    | flag bug =>
      rw [step_flag goes]
      exact held_flag held goes spares

theorem held_begin (distinct : s.addrs.Nodup) : (begin s).Held s := by
  have marked (bp : MediaBug) : (begin s).marked bp = bp.flags.prune := Bool.or_false _
  refine ⟨distinct, ?_, ?_, fun _ => .inl rfl, nofun⟩
  · exact filter_congr fun bp _ => by rw [marked]
  · rw [funext marked]
    exact .refl _

theorem returns (held : c.Held s) {n : Nat} (enough : c.session.bugs.length < n) :
    (run (step self) c (.replicate n .pass)).returned = true := by
  induction n generalizing c with
  | zero => cases enough
  | succ n ih =>
    rw [replicate_succ, run_cons]
    cases goes : c.returned with
    | true =>
      rwa [step_returned goes, returned_run goes]
    | false =>
      rw [step_pass goes]
      rcases pass_cases self held goes with
        ⟨-, same⟩ | ⟨front, bp, back, last, closes, whole, -, -, -, same⟩
      · rw [same]
        rw [returned_run rfl]
      · refine ih (held_pass self held goes) ?_
        rw [whole, length_append, length_cons] at enough
        rw [same]
        show (front ++ back).length < n
        rw [length_append]
        omega

theorem PruneCall.Held.exact (held : c.Held s) (returned : c.returned = true) : c.Exact s := by
  have none : c.session.bugs.filter (·.flags.prune) = [] :=
    filter_eq_nil_iff.mpr fun bp member => by simp [held.finished returned bp member]
  have all : c.session.bugs.filter (! ·.flags.prune) = c.session.bugs :=
    filter_eq_self.mpr fun bp member => by simp [held.finished returned bp member]
  refine ⟨returned, all ▸ held.linked, ?_⟩
  have closed := held.closed
  rwa [none, map_nil, append_nil] at closed

end Held

section Stuck

variable (self : Nat)

/-- The first bug of the list is flagged, and `last` points to a bug. -/
def PruneCall.Stuck (c : PruneCall) : Prop :=
  c.returned = false ∧ c.last ≠ none ∧ ∃ first rest, c.session.bugs = first :: rest ∧
    first.flags.prune = true

theorem stuck_flagged {c : PruneCall} (goes : c.returned = false) (isLast : c.last ≠ none)
    {first : MediaBug} {rest : List MediaBug} (whole : c.session.bugs = first :: rest) {bug : Nat}
    (prunes : (first.flagged bug).flags.prune = true) : (c.step self (.flag bug)).Stuck := by
  rw [step_flag goes]
  exact ⟨goes, isLast, _, _, congrArg (List.map (flagged bug)) whole, prunes⟩

/-- **It stays so for ever**: the `next` of a bug does not change which one is the first. -/
theorem stuck_step (c : PruneCall) (step : PruneStep) (stuck : c.Stuck) :
    (c.step self step).Stuck := by
  obtain ⟨goes, isLast, first, rest, whole, here⟩ := stuck
  cases step with
  | pass =>
    obtain ⟨p, last⟩ := Option.ne_none_iff_exists'.mp isLast
    have found : unlinkFirst addr (·.flags.prune) (first :: rest) (some p) (first :: rest) =
        some (first, relink addr p rest (first :: rest), some p) := if_pos here
    have stays : ∃ rest', relink addr p rest (first :: rest) = first :: rest' := by
      rw [relink]
      split <;> exact ⟨_, rfl⟩
    obtain ⟨rest', stays⟩ := stays
    rw [step_pass goes, PruneCall.pass, whole, last, found]
    exact ⟨goes, Option.some_ne_none p, first, rest', stays, here⟩
  | flag bug => exact stuck_flagged self goes isLast whole (by rw [flagged_prune, here, Bool.true_or])

theorem stuck_of_flag {c : PruneCall} {bug : Nat} (disturbs : ¬ c.Spares (.flag bug)) :
    (c.step self (.flag bug)).Stuck := by
  obtain ⟨goes, isLast, first, member, here⟩ : c.returned = false ∧ c.last ≠ none ∧
      ∃ first ∈ c.session.bugs.head?, first.addr = bug := by
    simpa [Spares] using disturbs
  obtain ⟨rest, whole⟩ := head?_eq_some_iff.mp member
  exact stuck_flagged self goes isLast whole
    (by rw [flagged_prune, here, decide_eq_true rfl, Bool.or_true])

end Stuck

/-- **When pruning is exact**: with the flags that other threads set between its passes, and none
after that, `switch_core_media_bug_prune` returns, with exactly the bugs without the flag in the list
and each other one closed once, if and only if the flag is never set on the first bug of the list while
`last` is left from an earlier pass. -/
theorem prune_exact_iff (s : BugSession) (distinct : s.addrs.Nodup) (self : Nat)
    (steps : List PruneStep) :
    (∃ n, (run (step self) (.begin s) (steps ++ .replicate n .pass)).Exact s) ↔
      Along (step self) Spares (.begin s) steps := by
  constructor
  · rintro ⟨n, exact⟩
    rw [along_iff_splits]
    intro done step begins
    cases step with
    | pass => trivial
    | flag bug =>
      by_contra disturbs
      obtain ⟨more, rfl⟩ := begins
      have never := run_keeps_all (stuck_step self) (stuck_of_flag self disturbs)
        (more ++ .replicate n .pass)
      have returned := exact.returned
      rw [append_assoc, append_assoc, run_append, singleton_append, run_cons,
        never.1] at returned
      cases returned
  · intro spares
    have held := run_keeps held_step (held_begin distinct) spares
    refine ⟨(run (step self) (.begin s) steps).session.bugs.length + 1, ?_⟩
    rw [run_append]
    refine Held.exact (run_keeps held_step held ?_) (returns held (Nat.lt_succ_self _))
    refine along_of_forall (fun step member _ => ?_) _
    rw [eq_of_mem_replicate member]
    trivial

def bugAt (addr : Nat) (prune : Bool) : MediaBug :=
  ⟨addr, [], some 7, 0, ⟨false, prune, false, false, false, false⟩, true⟩

/-- The second of three bugs is flagged when the last one has been taken out. -/
theorem prune_exact_second :
    let s : BugSession := ⟨[bugAt 2 false, bugAt 1 false, bugAt 0 true], 3, []⟩
    ∃ n, (run (step 1) (.begin s) ([.pass, .flag 1] ++ .replicate n .pass)).Exact s :=
  (prune_exact_iff _ (by decide) 1 [.pass, .flag 1]).mpr (by decide)

/-- **A bug that is closed twice**: the first of two bugs is flagged when the other one has been taken
out. After two more passes it is still in the list, and was closed in both. -/
theorem closed_twice :
    let s : BugSession := ⟨[bugAt 1 false, bugAt 0 true], 2, []⟩
    let c := run (step 1) (.begin s) [.pass, .flag 1, .pass, .pass]
    c.returned = false ∧ c.session.addrs = [1] ∧ c.closed = [0, 1, 1] ∧
      c.session.closes = [0, 1, 1] := by
  decide

end FreeSwitch
