/-
**The media bugs of a session.**

The list `session->bugs` and the functions that put bugs into it, mark them and take them out. A bug
is at an address, which is not used again: bugs are allocated from the pool of the session. What the
callbacks do is left open, except that the calls with `SWITCH_ABC_TYPE_CLOSE` are recorded.
-/

import FreeSwitch.Lib.CString
import FreeSwitch.Lib.Run
import FreeSwitch.Lib.Unlink

namespace FreeSwitch

open CString List Unlink

/-! ### The code -/

/-- The flags of `switch_media_bug_flag_t` that these functions read. -/
structure BugFlags where
  /-- `SMBF_THREAD_LOCK` -/
  threadLock : Bool
  /-- `SMBF_PRUNE` -/
  prune : Bool
  /-- `SMBF_LOCK` -/
  lock : Bool
  /-- `SMBF_ONE_ONLY` -/
  oneOnly : Bool
  /-- `SMBF_TAP_NATIVE_READ` -/
  tapNativeRead : Bool
  /-- `SMBF_TAP_NATIVE_WRITE` -/
  tapNativeWrite : Bool
deriving DecidableEq

/-- `switch_media_bug_t`. A `threadId` of zero is none. -/
structure MediaBug where
  addr : Nat
  function : Text
  callback : Option Nat
  threadId : Nat
  flags : BugFlags
  ready : Bool
deriving DecidableEq

/-- The list, the next address, and the bugs called with `SWITCH_ABC_TYPE_CLOSE`. -/
structure BugSession where
  bugs : List MediaBug
  next : Nat
  closes : List Nat
deriving DecidableEq

inductive BugStatus
  | success
  | failure
  | generr
deriving DecidableEq

/-- The thread `self` may remove the bug. -/
def MediaBug.free (bug : MediaBug) (self : Nat) : Bool := bug.threadId = 0 || bug.threadId = self

/-- The arguments of `switch_core_media_bug_add`; whether the channel has media or gets it by a
pre-answer, and the callback accepts `SWITCH_ABC_TYPE_INIT`. -/
structure BugRequest where
  function : Option Text
  callback : Option Nat
  flags : BugFlags
  self : Nat
  mediaReady : Bool
  accepts : Bool
deriving DecidableEq

/-- The bug that is made, at the address `addr`. -/
def BugRequest.bug (request : BugRequest) (addr : Nat) : MediaBug where
  addr := addr
  function := request.function.getD "N/A"
  callback := request.callback
  threadId := if request.flags.threadLock then request.self else 0
  flags := request.flags
  ready := true

variable (s : BugSession)

def mediaBugAdd (request : BugRequest) : BugStatus × BugSession :=
  let function := request.function.getD []
  let punt := function ≠ [] && request.flags.oneOnly &&
    s.bugs.any fun bp => bp.function ≠ [] && ciEq function bp.function
  if punt then (.generr, s)
  else if !request.mediaReady then (.failure, s)
  else if request.callback.isSome && !request.accepts then
    (.generr, { s with next := s.next + 1 })
  else (.success, { s with bugs := request.bug s.next :: s.bugs, next := s.next + 1 })

variable (self : Nat)

/-- `switch_core_media_bug_close`; `ready` of the bug, which has left the list, is left out. -/
def mediaBugClose (bug : MediaBug) (closes : List Nat) : BugStatus × List Nat :=
  if !bug.free self || bug.flags.lock then (.failure, closes)
  else (.success, if bug.callback.isSome then closes ++ [bug.addr] else closes)

/-- `switch_core_media_bug_remove`. A bug that is not in the list is not found, locked or not. -/
def mediaBugRemove (bug self : Nat) : BugStatus × BugSession :=
  if s.bugs.any fun bp => bp.addr = bug && bp.flags.lock then (.failure, s)
  else
    match unlinkFirst MediaBug.addr (fun bp => bp.free self && bp.ready && bp.addr = bug) s.bugs none
        s.bugs with
    | none => (.failure, s)
    | some (bp, bugs, _) =>
      let (status, closes) := mediaBugClose self bp s.closes
      (status, { s with bugs := bugs, closes := closes })

def MediaBug.release (bp : MediaBug) : MediaBug :=
  { bp with flags := { bp.flags with lock := false }, threadId := 0 }

/-- The passes of `switch_core_media_bug_prune`: back to `top` with `last` as it is. -/
def pruneFrom (self : Nat) : (passes : Nat) → (last : Option Nat) → BugSession → (ttl : Nat) →
    Nat × BugSession
  | 0, _, s, ttl => (ttl, s)
  | passes + 1, last, s, ttl =>
    match unlinkFirst MediaBug.addr (·.flags.prune) s.bugs last s.bugs with
    | none => (ttl, s)
    | some (bp, bugs, last) =>
      let closes := (mediaBugClose self bp.release s.closes).2
      pruneFrom self passes last { s with bugs := bugs, closes := closes } (ttl + 1)

/-- `switch_core_media_bug_prune`: each pass but the last takes out a bug. -/
def mediaBugPrune (self : Nat) : Nat × BugSession :=
  pruneFrom self (s.bugs.length + 1) none s 0

def closeCounted (done : List Nat × Nat) (cur : MediaBug) : List Nat × Nat :=
  let (status, closes) := mediaBugClose self cur done.1
  (closes, if status = .success then done.2 + 1 else done.2)

def mediaBugRemoveCallback (callback : Option Nat) (self : Nat) : BugStatus × BugSession :=
  let (bugs, closes, total) :=
    unlinkEach MediaBug.addr (fun cur => cur.free self && cur.ready && cur.callback = callback)
      (closeCounted self) s.bugs (s.closes, 0) none s.bugs
  (if total = 0 then .failure else .success, { s with bugs := bugs, closes := closes })

def mediaBugRemoveAllFunction (function : Option Text) (self : Nat) : BugStatus × BugSession :=
  if s.bugs = [] then (.failure, s)
  else
    let visit := fun closes bp =>
      if !bp.free self || bp.flags.lock then closes
      else if function.getD [] ≠ [] && bp.function ≠ function.getD [] then closes
      else if bp.callback.isSome then closes ++ [bp.addr] else closes
    (.success, { s with bugs := [], closes := s.bugs.foldl visit s.closes })

/-- The flags of the bug at `addr` are changed. -/
def MediaBug.modify (addr : Nat) (change : BugFlags → BugFlags) (bp : MediaBug) : MediaBug :=
  if bp.addr = addr then { bp with flags := change bp.flags } else bp

def BugSession.modify (s : BugSession) (addr : Nat) (change : BugFlags → BugFlags) : BugSession :=
  { s with bugs := s.bugs.map (MediaBug.modify addr change) }

def mediaBugPop (function : Text) : Option Nat × BugSession :=
  match s.bugs.find? (·.function = function) with
  | none => (none, s)
  | some bp => (some bp.addr, s.modify bp.addr fun flags => { flags with lock := true })

def mediaBugSetFlag (bug : Nat) (flag : BugFlags) : BugSession :=
  s.modify bug fun flags =>
    { threadLock := flags.threadLock || flag.threadLock
      prune := flags.prune || flag.prune
      lock := (if flag.prune then false else flags.lock) || flag.lock
      oneOnly := flags.oneOnly || flag.oneOnly
      tapNativeRead := flags.tapNativeRead || flag.tapNativeRead
      tapNativeWrite := flags.tapNativeWrite || flag.tapNativeWrite }

def mediaBugClearFlag (bug : Nat) (flag : BugFlags) : BugSession :=
  s.modify bug fun flags =>
    { threadLock := flags.threadLock && !flag.threadLock
      prune := flags.prune && !flag.prune
      lock := flags.lock && !flag.lock
      oneOnly := flags.oneOnly && !flag.oneOnly
      tapNativeRead := flags.tapNativeRead && !flag.tapNativeRead
      tapNativeWrite := flags.tapNativeWrite && !flag.tapNativeWrite }

/-! ### Runs -/

/-- An operation on the list; `self` is the calling thread. -/
inductive BugOp
  | add (request : BugRequest)
  | remove (bug self : Nat)
  | removeCallback (callback : Option Nat) (self : Nat)
  | removeAllFunction (function : Option Text) (self : Nat)
  | pop (function : Text)
  | prune (self : Nat)
  | setFlag (bug : Nat) (flag : BugFlags)
  | clearFlag (bug : Nat) (flag : BugFlags)
deriving DecidableEq

def BugSession.step (s : BugSession) : BugOp → BugSession
  | .add request => (mediaBugAdd s request).2
  | .remove bug self => (mediaBugRemove s bug self).2
  | .removeCallback callback self => (mediaBugRemoveCallback s callback self).2
  | .removeAllFunction function self => (mediaBugRemoveAllFunction s function self).2
  | .pop function => (mediaBugPop s function).2
  | .prune self => (mediaBugPrune s self).2
  | .setFlag bug flag => mediaBugSetFlag s bug flag
  | .clearFlag bug flag => mediaBugClearFlag s bug flag

def BugSession.fresh : BugSession := ⟨[], 0, []⟩

def BugSession.addrs (s : BugSession) : List Nat := s.bugs.map MediaBug.addr

/-! ### What an operation does -/

open BugOp

/-- Selected for removal, by address, callback, function or `SMBF_PRUNE`. One that is locked, or
owned by another thread, is not, unless it is to be pruned. -/
def BugOp.selects : BugOp → MediaBug → Bool
  | .remove bug self, bp => bp.addr = bug && bp.free self && !bp.flags.lock
  | .removeCallback callback self, bp => bp.callback = callback && bp.free self && !bp.flags.lock
  | .removeAllFunction function self, bp =>
    (function.getD [] = [] || bp.function = function.getD []) && bp.free self && !bp.flags.lock
  | .prune _, bp => bp.flags.prune
  | _, _ => false

def BugOp.takes : BugOp → MediaBug → Bool
  | .removeCallback callback self, bp => bp.callback = callback && bp.free self
  | .removeAllFunction _ _, _ => true
  | op, bp => op.selects bp

def shut (bugs : List MediaBug) : List Nat :=
  (bugs.filter (·.callback.isSome)).map MediaBug.addr

/-- What is taken out, and what is closed: the bugs that are selected. -/
structure BugEffect (s s' : BugSession) (op : BugOp) : Prop where
  list : ∃ (new : List MediaBug) (change : MediaBug → MediaBug),
    s'.bugs = new ++ (s.bugs.filter (! op.takes ·)).map change ∧
      (∀ bp, (change bp).addr = bp.addr ∧ (change bp).callback = bp.callback ∧
        (change bp).ready = bp.ready) ∧
      (new = [] ∨ ∃ bug, new = [bug] ∧ bug.addr = s.next ∧ bug.ready = true ∧ s.next < s'.next)
  next : s.next ≤ s'.next
  closes : s'.closes = s.closes ++ shut (s.bugs.filter op.selects)

structure BugSession.Sound (s : BugSession) : Prop where
  distinct : s.addrs.Nodup
  allocated : ∀ bp ∈ s.bugs, bp.addr < s.next
  ready : ∀ bp ∈ s.bugs, bp.ready = true
  closed : ∀ a ∈ s.closes, a < s.next
  opened : ∀ bp ∈ s.bugs, bp.addr ∉ s.closes

section Steps

variable {s : BugSession}

theorem shut_append (a b : List MediaBug) : shut (a ++ b) = shut a ++ shut b := by
  rw [shut, filter_append, map_append]
  rfl

theorem foldl_shut {visit : List Nat → MediaBug → List Nat} {opened : MediaBug → Bool}
    (visits : ∀ closes bp, visit closes bp = closes ++ shut ([bp].filter opened))
    (bugs : List MediaBug) (closes : List Nat) :
    bugs.foldl visit closes = closes ++ shut (bugs.filter opened) := by
  induction bugs generalizing closes with
  | nil => simp [shut]
  | cons bp bugs ih =>
    rw [foldl_cons, ih, visits, append_assoc, ← shut_append, ← filter_append]
    rfl

theorem mediaBugClose_closes (bp : MediaBug) (closes : List Nat) :
    (mediaBugClose self bp closes).2 =
      closes ++ shut ([bp].filter fun bp => bp.free self && !bp.flags.lock) := by
  unfold mediaBugClose
  cases free : bp.free self <;> cases lock : bp.flags.lock <;> cases called : bp.callback <;>
    simp [shut, free, lock, called]

theorem mediaBugClose_release (bp : MediaBug) (closes : List Nat) :
    (mediaBugClose self bp.release closes).2 = closes ++ shut [bp] := by
  rw [mediaBugClose_closes]
  cases called : bp.callback <;> simp [shut, MediaBug.release, MediaBug.free, called]

theorem effect_modify (addr : Nat) (change : BugFlags → BugFlags) {op : BugOp}
    (takes : ∀ bp, op.takes bp = false) (selects : ∀ bp, op.selects bp = false) :
    BugEffect s (s.modify addr change) op := by
  refine ⟨⟨[], MediaBug.modify addr change, ?_, fun bp => ?_, .inl rfl⟩, le_rfl, ?_⟩
  · rw [filter_eq_self.mpr (by simp [takes]), nil_append]
    rfl
  · unfold MediaBug.modify
    split <;> exact ⟨rfl, rfl, rfl⟩
  · simp [BugSession.modify, selects, shut]

theorem effect_none {s' : BugSession} {op : BugOp} (bugs : s'.bugs = s.bugs)
    (closes : s'.closes = s.closes) (next : s.next ≤ s'.next)
    (takes : ∀ bp ∈ s.bugs, op.takes bp = false) (selects : ∀ bp ∈ s.bugs, op.selects bp = false) :
    BugEffect s s' op := by
  refine ⟨⟨[], id, ?_, fun bp => ⟨rfl, rfl, rfl⟩, .inl rfl⟩, next, ?_⟩
  · rw [bugs, map_id, nil_append, filter_eq_self.mpr]
    intro bp member
    rw [takes bp member]
    rfl
  · rw [closes, filter_eq_nil_iff.mpr, shut, filter_nil, map_nil, append_nil]
    intro bp member
    rw [selects bp member]
    exact Bool.false_ne_true

theorem effect_removed {s' : BugSession} {op : BugOp}
    (bugs : s'.bugs = s.bugs.filter (! op.takes ·)) (next : s'.next = s.next)
    (closes : s'.closes = s.closes ++ shut (s.bugs.filter op.selects)) : BugEffect s s' op :=
  ⟨⟨[], id, by rw [bugs, map_id, nil_append], fun bp => ⟨rfl, rfl, rfl⟩, .inl rfl⟩,
    next.ge, closes⟩

theorem add_effect (request : BugRequest) : BugEffect s (mediaBugAdd s request).2 (.add request) := by
  unfold mediaBugAdd
  dsimp only
  split
  · exact effect_none rfl rfl le_rfl (fun _ _ => rfl) fun _ _ => rfl
  split
  · exact effect_none rfl rfl le_rfl (fun _ _ => rfl) fun _ _ => rfl
  split
  · exact effect_none rfl rfl (Nat.le_succ _) (fun _ _ => rfl) fun _ _ => rfl
  · have new : ∃ bug, [request.bug s.next] = [bug] ∧ bug.addr = s.next ∧ bug.ready = true ∧
        s.next < s.next + 1 := ⟨_, rfl, rfl, rfl, Nat.lt_succ_self _⟩
    refine ⟨⟨[request.bug s.next], id, ?_, fun bp => ⟨rfl, rfl, rfl⟩, .inr new⟩, Nat.le_succ _, ?_⟩
    · simp [takes, selects]
    · simp [selects, shut]

theorem BugSession.Sound.unique (sound : s.Sound) {front back : List MediaBug} {a : MediaBug}
    (whole : s.bugs = front ++ a :: back) : ∀ bp ∈ front ++ back, bp.addr ≠ a.addr := by
  have distinct := sound.distinct
  rw [BugSession.addrs, whole, map_append, map_cons, nodup_middle,
    nodup_cons] at distinct
  intro bp member same
  rw [← map_append] at distinct
  exact distinct.1 (mem_map.mpr ⟨bp, member, same⟩)

theorem remove_effect (sound : s.Sound) (bug self : Nat) :
    BugEffect s (mediaBugRemove s bug self).2 (.remove bug self) := by
  unfold mediaBugRemove
  split
  next locked =>
    -- the bug is locked, and it is the only one at its address
    obtain ⟨bp, member, here⟩ := any_eq_true.mp locked
    obtain ⟨rfl, lock⟩ : bp.addr = bug ∧ bp.flags.lock = true := by simpa using here
    obtain ⟨front, back, whole⟩ := append_of_mem member
    have spared : ∀ c ∈ s.bugs, (remove bp.addr self).selects c = false := by
      intro c inside
      rw [whole, mem_append, mem_cons] at inside
      by_cases same : c = bp
      · simp [selects, same, lock]
      · have other := sound.unique whole c (by
          rw [mem_append]
          tauto)
        simp [selects, other]
    exact effect_none rfl rfl le_rfl spared spared
  next unlocked =>
    have lock : ∀ bp ∈ s.bugs, bp.addr = bug → bp.flags.lock = false := by
      simpa using unlocked
    have ready := sound.ready
    rcases unlinkFirst_spec sound.distinct (.inl rfl) with
      ⟨absent, found⟩ | ⟨front, a, back, last, whole, -, here, found, -⟩
    · rw [found]
      have spared : ∀ c ∈ s.bugs, (remove bug self).selects c = false := by
        intro c inside
        have passed := absent c inside
        rw [ready c inside, Bool.and_true] at passed
        simp only [selects]
        rw [Bool.and_comm (decide _), passed, Bool.false_and]
      exact effect_none rfl rfl le_rfl spared spared
    · rw [found]
      have member : a ∈ s.bugs := by simp [whole]
      obtain ⟨⟨free, -⟩, rfl⟩ : (a.free self = true ∧ a.ready = true) ∧ a.addr = bug := by
        simpa using here
      have unlocked := lock a member rfl
      have others : ∀ c ∈ front ++ back, (remove a.addr self).selects c = false := by
        intro c inside
        simp [selects, sound.unique whole c inside]
      have mine : (remove a.addr self).selects a = true := by
        simp [selects, free, unlocked]
      have mineOnly := filter_only mine others
      rw [← whole] at mineOnly
      refine effect_removed mineOnly.2.symm rfl ?_
      rw [mineOnly.1]
      show (mediaBugClose self a s.closes).2 = _
      rw [mediaBugClose_closes, filter_cons_of_pos (by simp [free, unlocked]), filter_nil]

theorem foldl_closeCounted (bugs : List MediaBug) (done : List Nat × Nat) :
    (bugs.foldl (closeCounted self) done).1 =
      done.1 ++ shut (bugs.filter fun bp => bp.free self && !bp.flags.lock) := by
  induction bugs generalizing done with
  | nil => simp [shut]
  | cons bp bugs ih =>
    have first : (closeCounted self done bp).1 = _ := mediaBugClose_closes self bp done.1
    rw [foldl_cons, ih, first, append_assoc, ← shut_append, ← filter_append]
    rfl

theorem removeCallback_effect (sound : s.Sound) (callback : Option Nat) (self : Nat) :
    BugEffect s (mediaBugRemoveCallback s callback self).2 (.removeCallback callback self) := by
  have looked : ∀ bp ∈ s.bugs, (bp.free self && bp.ready && decide (bp.callback = callback)) =
      (removeCallback callback self).takes bp := by
    intro bp member
    rw [sound.ready bp member, Bool.and_true, Bool.and_comm]
    rfl
  unfold mediaBugRemoveCallback
  rw [unlinkEach_all _ sound.distinct]
  refine effect_removed ?_ rfl ?_
  · exact filter_congr fun bp member => by rw [looked bp member]
  · refine (foldl_closeCounted self _ (s.closes, 0)).trans ?_
    rw [filter_filter]
    congr 2
    refine filter_congr fun bp member => ?_
    rw [looked bp member]
    cases free : bp.free self <;> cases lock : bp.flags.lock <;>
      simp [takes, selects, free, lock]

theorem removeAllFunction_effect (function : Option Text) (self : Nat) :
    BugEffect s (mediaBugRemoveAllFunction s function self).2 (.removeAllFunction function self) := by
  unfold mediaBugRemoveAllFunction
  split
  next empty => exact effect_none rfl rfl le_rfl (by simp [empty]) (by simp [empty])
  next =>
    refine effect_removed ?_ rfl (foldl_shut (fun closes bp => ?_) s.bugs s.closes)
    · exact (filter_eq_nil_iff.mpr fun bp _ => Bool.false_ne_true).symm
    · by_cases whole : function.getD [] = [] <;> by_cases same : bp.function = function.getD [] <;>
        cases free : bp.free self <;> cases lock : bp.flags.lock <;> cases called : bp.callback <;>
        simp [shut, selects, whole, same, free, lock, called]

/-- **What the passes of `switch_core_media_bug_prune` do**, with a fit `last`. -/
theorem pruneFrom_eq {passes : Nat} {last : Option Nat} (ttl : Nat) (distinct : s.addrs.Nodup)
    (ready : Ready (fun bp : MediaBug => bp.flags.prune) last s.bugs)
    (enough : s.bugs.length < passes) :
    (pruneFrom self passes last s ttl).2 =
      { s with
        bugs := s.bugs.filter fun bp => !bp.flags.prune
        closes := s.closes ++ shut (s.bugs.filter fun bp => bp.flags.prune) } := by
  induction passes generalizing s last ttl with
  | zero => exact absurd enough (Nat.not_lt_zero _)
  | succ passes ih =>
    rw [pruneFrom]
    rcases unlinkFirst_spec distinct ready with
      ⟨absent, found⟩ | ⟨front, a, back, last', whole, skipped, here, found, ready'⟩
    · rw [found]
      have kept : s.bugs.filter (fun bp => !bp.flags.prune) = s.bugs :=
        filter_eq_self.mpr fun bp member => by simp [absent bp member]
      have closed : s.bugs.filter (fun bp => bp.flags.prune) = [] :=
        filter_eq_nil_iff.mpr fun bp member => by simp [absent bp member]
      rw [kept, closed, shut, filter_nil, map_nil, append_nil]
    · rw [found]
      obtain ⟨bugs, next, closes⟩ := s
      subst whole
      have fewer : (front ++ back).Sublist (front ++ a :: back) :=
        List.Sublist.append_left (sublist_cons_self a back) front
      have shorter : (front ++ back).length < passes := by
        simp only [length_append, length_cons] at enough ⊢
        omega
      have skips : front.filter (fun bp => bp.flags.prune) = [] :=
        filter_eq_nil_iff.mpr fun bp member => by simp [skipped bp member]
      refine (ih (ttl + 1) ?_ ready' shorter).trans ?_
      · exact distinct.sublist (fewer.map MediaBug.addr)
      · have closed : (a :: back).filter (fun bp => bp.flags.prune) =
            a :: back.filter fun bp => bp.flags.prune := by simp [here]
        have kept : (a :: back).filter (fun bp => !bp.flags.prune) =
            back.filter fun bp => !bp.flags.prune := filter_cons_of_neg (by simp [here])
        simp only [mediaBugClose_release, filter_append, skips, nil_append, kept, closed]
        rw [append_assoc, ← shut_append]
        rfl

theorem prune_effect (sound : s.Sound) (self : Nat) :
    BugEffect s (mediaBugPrune s self).2 (.prune self) := by
  rw [mediaBugPrune, pruneFrom_eq self 0 sound.distinct (.inl rfl) (Nat.lt_succ_self _)]
  exact effect_removed rfl rfl rfl

/-- **What an operation does**: it takes out what it `takes`, and closes what it selects. -/
theorem step_effect (sound : s.Sound) (op : BugOp) : BugEffect s (s.step op) op := by
  cases op with
  | add request => exact add_effect request
  | remove bug self => exact remove_effect sound bug self
  | removeCallback callback self => exact removeCallback_effect sound callback self
  | removeAllFunction function self => exact removeAllFunction_effect function self
  | pop function =>
    show BugEffect s (mediaBugPop s function).2 _
    unfold mediaBugPop
    split
    · exact effect_none rfl rfl le_rfl (fun _ _ => rfl) fun _ _ => rfl
    · exact effect_modify _ _ (fun _ => rfl) fun _ => rfl
  | prune self => exact prune_effect sound self
  | setFlag bug flag | clearFlag bug flag => exact effect_modify _ _ (fun _ => rfl) fun _ => rfl

end Steps

end FreeSwitch
