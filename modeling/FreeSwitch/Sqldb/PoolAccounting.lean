/-
**The counters of the handle pool.**

`sql_manager.total_handles` counts the handles of the pool and `total_used_handles` the uses of them.
Both are right along a history as long as calls release only what they hold, nothing that is in use is
closed at shutdown and no counter wraps around. The limit `max_db_handles` is another matter: a call
waits only while the limit is reached *and* every handle is in use, so that an idle handle of another
database lets it open one handle too many. The limit is kept as long as each call finds room for
itself and the calls under way, or the limit reached and every handle in use.
-/

import FreeSwitch.Lib.Tally
import FreeSwitch.Sqldb.HandleCache

namespace FreeSwitch

open CString DbHandle List Run Unsigned

def DbWorld.uses (w : DbWorld) : Nat := (w.pool.map useCount).sum

/-- **The counters are right.** -/
structure DbWorld.Accounted (w : DbWorld) : Prop where
  handles : w.totalHandles = w.pool.length
  used : w.totalUsedHandles = w.uses

/-- The steps that keep the accounts. A call under a limit finds room for a handle of its own beside
those that the calls under way may open, or the limit reached and no handle idle; no counter wraps
around, only a handle in use is released, and the end of the program closes none in use. -/
def DbWorld.Careful (w : DbWorld) : DbOp → Prop
  | .call _ _ => w.maxDbHandles = 0 ∨ w.totalHandles + w.calls.length < w.maxDbHandles ∨
      w.maxDbHandles ≤ w.totalHandles ∧ w.totalHandles ≤ w.totalUsedHandles
  | .get _ _ => w.totalUsedHandles + 1 < 2 ^ 32
  | .connect thread connected _ =>
    connected = true ∧ (w.inPhase thread .opening).isSome = true →
      w.totalHandles + 1 < 2 ^ 32 ∧ w.totalUsedHandles + 1 < 2 ^ 32
  | .release _ addr _ => ∃ dbh ∈ w.pool, dbh.addr = addr ∧ dbh.useCount ≠ 0
  | .close thread prune => 0 < prune ∨ ∀ dbh ∈ w.pool, dbh.drops thread prune → dbh.useCount = 0

instance decidableCareful (w : DbWorld) : (op : DbOp) → Decidable (w.Careful op)
  | .call _ _ => inferInstanceAs (Decidable (_ ∨ _ ∨ _ ∧ _))
  | .get _ _ => inferInstanceAs (Decidable (_ < _))
  | .connect _ _ _ => inferInstanceAs (Decidable (_ ∧ _ → _ ∧ _))
  | .release _ addr _ =>
    inferInstanceAs (Decidable (∃ dbh ∈ w.pool, dbh.addr = addr ∧ dbh.useCount ≠ 0))
  | .close thread prune =>
    inferInstanceAs (Decidable (_ ∨ ∀ dbh ∈ w.pool, dbh.drops thread prune → dbh.useCount = 0))

section Steps

variable {w : DbWorld}

theorem drops_of_used {dbh : DbHandle} {thread prune : Nat} (pruning : 0 < prune)
    (used : dbh.useCount ≠ 0) : dbh.drops thread prune = false := by
  simp [drops, pruning, used]

theorem accounted_get (accounted : w.Accounted) (faithful : w.Faithful .univ) (thread now : Nat)
    (careful : w.totalUsedHandles + 1 < 2 ^ 32) : (w.get thread now).Accounted := by
  rcases get_cases w thread now with same | ⟨call, -, same⟩ |
    ⟨call, dbStr, r, -, -, member, -, locks, only, same⟩
  · rwa [same]
  · rw [same]
    exact { accounted with }
  · rw [same]
    have addr (dbh : DbHandle) : (locks dbh).addr = dbh.addr := by
      obtain ⟨mutex, locked⟩ := only dbh
      rw [locked]
    have useCount (dbh : DbHandle) : (locks dbh).useCount = dbh.useCount := by
      obtain ⟨mutex, locked⟩ := only dbh
      rw [locked]
    refine ⟨by simpa using accounted.handles, ?_⟩
    -- locking changes no use count, and the search adds one use of `r`
    have addrs : (w.pool.map locks).map DbHandle.addr = w.pool.map DbHandle.addr := by
      rw [map_map]
      exact map_congr_left fun dbh _ => addr dbh
    have uses : ((w.pool.map locks).map DbHandle.useCount).sum = w.uses := by
      rw [map_map]
      exact congrArg List.sum (map_congr_left fun dbh _ => useCount dbh)
    have changed := Tally.sum_change (addrs ▸ faithful.distinct : ((w.pool.map locks).map _).Nodup)
      (mem_map_of_mem member) (·.use thread dbStr now) DbHandle.useCount
    have atMost : r.useCount ≤ w.uses :=
      single_le_sum (fun _ _ => Nat.zero_le _) _ (mem_map_of_mem member)
    have total := accounted.used
    have usedOnce : ((locks r).use thread dbStr now).useCount = r.useCount + 1 := by
      rw [DbHandle.use, useCount]
      exact add_of_lt (by omega)
    rw [addr, useCount, usedOnce, uses] at changed
    show add 32 w.totalUsedHandles 1 = _
    rw [add_of_lt careful]
    unfold DbWorld.uses at *
    dsimp only
    omega

theorem accounted_connect (accounted : w.Accounted) (thread : Nat) (connected : Bool) (now : Nat)
    (careful : w.Careful (.connect thread connected now)) :
    (w.connect thread connected now).Accounted := by
  rcases connect_cases w thread connected now with same | same |
    ⟨call, options, dbStr, opened, found, -, -, same⟩
  · rwa [same]
  · rw [same]
    exact { accounted with }
  · rw [same]
    obtain ⟨small, fewUses⟩ := careful ⟨opened, by rw [found]; rfl⟩
    have count := accounted.handles
    have total := accounted.used
    refine ⟨?_, ?_⟩
    · show add 32 w.totalHandles 1 = (_ :: w.pool).length
      rw [add_of_lt small, length_cons, count]
    · show add 32 w.totalUsedHandles 1 = 1 + w.uses
      rw [add_of_lt fewUses, total, Nat.add_comm]

theorem release_useCount {dbh : DbHandle} (thread now : Nat) (used : dbh.useCount ≠ 0) :
    (dbh.release thread now).useCount + 1 = dbh.useCount := by
  have unlocked (dbh : DbHandle) : (dbh.unlock thread).useCount = dbh.useCount := by
    unfold unlock
    split
    · rfl
    · split <;> rfl
  rw [release, unlocked, if_neg used]
  exact Nat.sub_add_cancel (Nat.one_le_iff_ne_zero.mpr used)

theorem accounted_release (accounted : w.Accounted) (faithful : w.Faithful .univ)
    (small : w.totalUsedHandles < 2 ^ 32) (thread addr now : Nat)
    (careful : w.Careful (.release thread addr now)) : (w.release thread addr now).Accounted := by
  obtain ⟨dbh, member, rfl, used⟩ := careful
  have inPool : w.pool.any (·.addr = dbh.addr) = true :=
    any_eq_true.mpr ⟨dbh, member, decide_eq_true rfl⟩
  rw [DbWorld.release, if_pos inPool]
  refine ⟨by simpa using accounted.handles, ?_⟩
  have changed := Tally.sum_change faithful.distinct member (·.release thread now) useCount
  have one := release_useCount thread now used
  have total := accounted.used
  unfold DbWorld.uses at total
  show sub 32 w.totalUsedHandles 1 = (_ : List Nat).sum
  rw [sub_of_le (by omega) small]
  dsimp only
  omega

theorem uses_filter {pool : List DbHandle} {drops : DbHandle → Bool}
    (idle : ∀ dbh ∈ pool, drops dbh = true → dbh.useCount = 0) :
    ((pool.filter fun dbh => !drops dbh).map useCount).sum =
      (pool.map useCount).sum := by
  induction pool with
  | nil => rfl
  | cons dbh rest ih =>
    obtain ⟨here, later⟩ := forall_mem_cons.mp idle
    cases dropped : drops dbh with
    | true => simp [dropped, ih later, here dropped]
    | false => simp [dropped, ih later]

theorem accounted_close (accounted : w.Accounted) (small : w.totalHandles < 2 ^ 32)
    (thread prune : Nat) (careful : w.Careful (.close thread prune)) :
    (w.sqlClose thread prune).Accounted := by
  have idle : ∀ dbh ∈ w.pool, dbh.drops thread prune = true → dbh.useCount = 0 := by
    intro dbh member drops
    rcases careful with pruning | idle
    · by_contra used
      rw [drops_of_used pruning used] at drops
      cases drops
    · exact idle dbh member drops
  have split := length_eq_countP_add_countP (·.drops thread prune) (l := w.pool)
  have kept : w.pool.countP (fun dbh => !dbh.drops thread prune) =
      (w.pool.filter fun dbh => !dbh.drops thread prune).length := countP_eq_length_filter
  have count := accounted.handles
  have fewer : (w.sqlClose thread prune).totalHandles =
      (w.pool.filter fun dbh => !dbh.drops thread prune).length := by
    show sub 32 w.totalHandles _ = _
    simp only [Bool.not_eq_true, Bool.decide_eq_false] at split
    rw [sub_of_le (by omega) small]
    omega
  exact ⟨fewer, accounted.used.trans (uses_filter idle).symm⟩

/-- The limit has room for the handles of the calls under way. -/
def DbWorld.Spared (w : DbWorld) : Prop :=
  w.maxDbHandles ≠ 0 → w.totalHandles + w.calls.length ≤ w.maxDbHandles

theorem others_length {phase : DbPhase} {thread : Nat} {call : DbCall}
    (found : w.inPhase thread phase = some call) : (w.others thread).length + 1 ≤ w.calls.length := by
  have same := find?_some found
  have member := mem_of_find?_eq_some found
  simp only [Bool.and_eq_true, decide_eq_true_eq] at same
  refine Nat.succ_le_of_lt (length_filter_lt_length_iff_exists.mpr ⟨call, member, ?_⟩)
  simp [same.1]

theorem spared_call (spared : w.Spared) (thread : Nat) (request : DbRequest)
    (careful : w.Careful (.call thread request)) : (w.call thread request).Spared := by
  unfold DbWorld.call
  split
  · exact spared
  next passed =>
    intro limited
    -- the test has let the call past, so that the limit is not reached with every handle in use
    have idle : ¬ (w.maxDbHandles ≤ w.totalHandles ∧ w.totalHandles ≤ w.totalUsedHandles) := by
      rintro ⟨reached, busy⟩
      have limited : w.maxDbHandles ≠ 0 := limited
      simp [DbWorld.exhausted, limited, reached, busy] at passed
    have room := (careful.resolve_left limited).resolve_right idle
    show w.totalHandles + (w.calls.length + 1) ≤ w.maxDbHandles
    omega

theorem spared_connect (spared : w.Spared) (thread : Nat) (connected : Bool) (now : Nat)
    (careful : w.Careful (.connect thread connected now)) :
    (w.connect thread connected now).Spared := by
  rcases connect_cases w thread connected now with same | same |
    ⟨call, options, dbStr, opened, found, -, -, same⟩
  · rwa [same]
  · rw [same]
    exact fun limited =>
      (Nat.add_le_add_left (length_filter_le _ w.calls) _).trans (spared limited)
  · rw [same]
    intro limited
    have small := (careful ⟨opened, by rw [found]; rfl⟩).1
    have fewer := others_length found
    have room := spared limited
    show add 32 w.totalHandles 1 + (w.others thread).length ≤ w.maxDbHandles
    rw [add_of_lt small]
    omega

theorem spared_get (spared : w.Spared) (thread now : Nat) : (w.get thread now).Spared := by
  rcases get_cases w thread now with same | ⟨call, found, same⟩ |
    ⟨call, _, _, found, -, -, -, _, -, same⟩
  · rwa [same]
  · rw [same]
    exact fun limited => (Nat.add_le_add_left (others_length found) _).trans (spared limited)
  · rw [same]
    exact fun limited =>
      (Nat.add_le_add_left (length_filter_le _ w.calls) _).trans (spared limited)

theorem spared_close (spared : w.Spared) (accounted : w.Accounted) {thread prune : Nat}
    (closed : (w.sqlClose thread prune).Accounted) : (w.sqlClose thread prune).Spared := by
  intro limited
  have room := spared limited
  have fewer : (w.sqlClose thread prune).pool.length ≤ w.pool.length := length_filter_le _ _
  rw [closed.handles]
  rw [accounted.handles] at room
  exact (Nat.add_le_add_right fewer _).trans room

def DbWorld.Counted (w : DbWorld) : Prop := w.totalHandles < 2 ^ 32 ∧ w.totalUsedHandles < 2 ^ 32

theorem counted_step (w : DbWorld) (op : DbOp) (counted : w.Counted) : (w.step op).Counted := by
  cases op with
  | call thread request =>
    show (w.call thread request).Counted
    rcases call_cases w thread request with same | same <;> rwa [same]
  | get thread now =>
    show (w.get thread now).Counted
    rcases get_cases w thread now with same | ⟨_, -, same⟩ | ⟨_, _, _, -, -, -, -, _, -, same⟩
    · rwa [same]
    · rwa [same]
    · rw [same]
      exact ⟨counted.1, add_lt ..⟩
  | connect thread connected now =>
    show (w.connect thread connected now).Counted
    rcases connect_cases w thread connected now with same | same | ⟨_, _, _, -, -, -, -, same⟩
    · rwa [same]
    · rwa [same]
    · rw [same]
      exact ⟨add_lt .., add_lt ..⟩
  | release thread addr now =>
    show (w.release thread addr now).Counted
    unfold DbWorld.release
    split
    · exact ⟨counted.1, sub_lt ..⟩
    · exact counted
  | close thread prune => exact ⟨sub_lt .., counted.2⟩

theorem accounted_step (w : DbWorld) (op : DbOp)
    (kept : (w.Accounted ∧ w.Spared) ∧ w.Faithful .univ ∧ w.Counted) (careful : w.Careful op) :
    ((w.step op).Accounted ∧ (w.step op).Spared) ∧ (w.step op).Faithful .univ ∧
      (w.step op).Counted := by
  obtain ⟨⟨accounted, spared⟩, faithful, counted⟩ := kept
  refine ⟨?_, faithful_step w op faithful ?_, counted_step w op counted⟩
  · cases op with
    | call thread request =>
      refine ⟨?_, spared_call spared thread request careful⟩
      show (w.call thread request).Accounted
      rcases call_cases w thread request with same | same
      · rwa [same]
      · rw [same]
        exact { accounted with }
    | get thread now =>
      exact ⟨accounted_get accounted faithful thread now careful, spared_get spared thread now⟩
    | connect thread connected now =>
      exact ⟨accounted_connect accounted thread connected now careful,
        spared_connect spared thread connected now careful⟩
    | release thread addr now =>
      refine ⟨accounted_release accounted faithful counted.2 thread addr now careful, ?_⟩
      show (w.release thread addr now).Spared
      unfold DbWorld.release
      split <;> exact spared
    | close thread prune =>
      have closed := accounted_close accounted counted.1 thread prune careful
      exact ⟨closed, spared_close spared accounted closed⟩
  · cases op <;> trivial

end Steps

/-- **The pool is accounted for**: along every history of careful steps the two counters are the number
of handles and the sum of their uses, the limit is kept, and pruning destroys no handle in use. -/
theorem pool_accounted (maxDbHandles : Nat) (ops : List DbOp)
    (careful : Along DbWorld.step DbWorld.Careful (.start maxDbHandles) ops) :
    let w := run DbWorld.step (.start maxDbHandles) ops
    w.Accounted ∧ (w.maxDbHandles ≠ 0 → w.totalHandles ≤ w.maxDbHandles) ∧
      ∀ thread prune, 0 < prune →
        ∀ dbh ∈ w.pool, dbh.useCount ≠ 0 → dbh ∈ (w.sqlClose thread prune).pool := by
  intro w
  obtain ⟨⟨accounted, spared⟩, -⟩ := run_keeps accounted_step
    ⟨⟨⟨rfl, rfl⟩, fun _ => Nat.zero_le _⟩, faithful_start _, Nat.two_pow_pos 32,
      Nat.two_pow_pos 32⟩ careful
  refine ⟨accounted, fun limited => (Nat.le_add_right _ _).trans (spared limited), ?_⟩
  intro thread prune pruning dbh member used
  refine mem_filter.mpr ⟨member, ?_⟩
  rw [drops_of_used pruning used]
  rfl

def coreRequest (path : Text) : DbRequest := ⟨.coreDb, ⟨some path, none, none⟩⟩

/-- Two threads use one handle each, up to the limit, and a third one is held back until a handle is
released and pruned. -/
def sharedUse : List DbOp :=
  [.call 0 (coreRequest ['a']), .get 0 5, .call 1 (coreRequest ['b']), .connect 0 true 5, .get 1 6,
    .connect 1 true 6, .call 2 (coreRequest ['c']), .release 0 0 7, .close 2 50,
    .call 2 (coreRequest ['c']), .get 2 51, .connect 2 true 52]

theorem pool_accounted_sharedUse :
    let w := run DbWorld.step (.start 2) sharedUse
    w.pool.map DbHandle.addr = [2, 1] ∧ w.Accounted ∧ w.totalHandles ≤ 2 := by
  intro w
  have careful : Along DbWorld.step DbWorld.Careful (.start 2) sharedUse := by decide +kernel
  have limited : w.maxDbHandles = 2 := by decide +kernel
  obtain ⟨accounted, limit, -⟩ := pool_accounted 2 sharedUse careful
  exact ⟨by decide +kernel, accounted, limited ▸ limit (by rw [limited]; decide)⟩

/-- **One handle too many**: the only handle that is allowed is idle, and a call for another database
opens a second one. -/
theorem limit_exceeded :
    let ops : List DbOp := [.call 0 (coreRequest ['a']), .get 0 0, .connect 0 true 0, .release 0 0 0,
      .call 0 (coreRequest ['b']), .get 0 0, .connect 0 true 0]
    let w := run DbWorld.step (.start 1) ops
    w.maxDbHandles = 1 ∧ w.totalHandles = 2 := by
  decide +kernel

end FreeSwitch
