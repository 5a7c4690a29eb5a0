/-
**What the SQL queue manager executes.**

Every statement is executed at most once, and those of one queue in the order in which they were pushed:
this holds of every run. Two things need not hold. A transaction executes one statement more than
`max_trans`, since the loop goes on while `ttl <= max_trans`. And statements are thrown away though the
manager is not paused: by a thread that has seen the manager paused and empties the queues when it is
no longer so, and by the destruction of the manager, where a push that had passed its tests comes behind
the end of the thread.

* **`queue_manager_right`**: what holds of every run, and when all is right;
* `statements_conserved`: what becomes of every statement.
-/

import FreeSwitch.Lib.Run
import FreeSwitch.Sqldb.QueueManager

namespace FreeSwitch

open CString Fifo QmWorld Run

namespace QmWorld

/-! ### What is right -/

/-- **The manager has done right**: each statement was executed at most once, in the order of its
queue; none was thrown away unless the manager was paused; and no transaction was too long. -/
structure Right (maxTrans : Nat) (w : QmWorld) : Prop where
  once : (w.executed.map fun entry => entry.2.tag).Nodup
  order : ∀ i, (part i w.executed).Sublist (part i w.pushed)
  spared : ∀ entry ∈ w.discarded, entry.2 = true
  bounded : maxTrans ≠ 0 → w.most ≤ maxTrans

/-- The thread empties the queues for a pause. -/
def flushes (w : QmWorld) : Bool := match w.pc with
  | .flushing _ => true
  | _ => false

/-- The thread executes the statements of a transaction. -/
def executes (w : QmWorld) : Bool := match w.pc with
  | .popping _ _ | .executing _ _ _ => true
  | _ => false

def queued (w : QmWorld) : Nat := ∑ i ∈ Finset.range w.numq, (w.stmts i).length

/-- The manager is not resumed while its thread empties the queues for a pause, nor stopped while a
push is under way; with a limit, a transaction begins with at most `max_trans` statements in the queues,
and none is put there before it is over. -/
def Calm (w : QmWorld) : QmStep → Prop
  | .pause on => on = true ∨ w.flushes = false
  | .stop => w.running = .on → w.pushers = []
  | .thread _ => w.maxTrans ≠ 0 → w.pc = .beginning → w.queued ≤ w.maxTrans
  | .pushLocked _ => w.maxTrans ≠ 0 → w.executes = false
  | _ => True

instance (w : QmWorld) (s : QmStep) : Decidable (w.Calm s) := by
  unfold Calm
  cases s <;> infer_instance

/-! ### The order -/

def hand (w : QmWorld) : List (Nat × SqlStmt) :=
  match w.pc with
  | .executing _ i stmt => [(i, stmt)]
  | _ => []

def tags (w : QmWorld) : List Nat :=
  w.pushed.map (fun entry => entry.2.tag) ++ w.pushers.map fun p => p.stmt.tag

/-- What was pushed into a queue was taken out or is still there; what was executed was taken out,
in this order; and statements have numbers of their own. -/
structure Ordered (w : QmWorld) : Prop where
  fifo : ∀ i, part i w.pushed = part i w.taken ++ w.stmts i
  taken : (w.executed ++ w.hand).Sublist w.taken
  distinct : w.tags.Nodup
  fresh : ∀ tag ∈ w.tags, tag < w.next

variable {w : QmWorld}

theorem ordered_start (numq maxTrans : Nat) : (start numq maxTrans).Ordered where
  fifo _ := rfl
  taken := .refl _
  distinct := List.nodup_nil
  fresh _ member := absurd member List.not_mem_nil

theorem Ordered.order (ordered : w.Ordered) (i : Nat) :
    (part i w.executed).Sublist (part i w.pushed) := by
  have among : w.executed.Sublist w.taken := (List.sublist_append_left _ _).trans ordered.taken
  rw [ordered.fifo]
  exact (part_sublist i among).trans (List.sublist_append_left _ _)

theorem Ordered.once (ordered : w.Ordered) : (w.executed.map fun entry => entry.2.tag).Nodup := by
  have pushed : (w.pushed.map fun entry => entry.2.tag).Nodup :=
    (List.nodup_append.mp ordered.distinct).1
  refine (nodup_of_parts ordered.order pushed.of_map).map_on fun first among second also same => ?_
  exact List.inj_on_of_nodup_map pushed (mem_of_parts ordered.order among)
    (mem_of_parts ordered.order also) same

variable {ok : Bool} {i tag ttl : Nat} {w' : QmWorld}

theorem Ordered.frame (ordered : w.Ordered) (queues : w'.queues = w.queues)
    (pushed : w'.pushed = w.pushed) (taken : w'.taken = w.taken)
    (executed : w'.executed ++ w'.hand = w.executed ++ w.hand) (pushers : w'.pushers = w.pushers)
    (next : w'.next = w.next) : w'.Ordered where
  fifo i := by
    rw [stmts, queues, pushed, taken]
    exact ordered.fifo i
  taken := by
    rw [executed, taken]
    exact ordered.taken
  distinct := by
    rw [tags, pushed, pushers]
    exact ordered.distinct
  fresh := by
    rw [tags, pushed, pushers, next]
    exact ordered.fresh

theorem Ordered.change {queue : List (Option SqlStmt)} (ordered : w.Ordered)
    (put out : List SqlStmt) (queues : w'.queues = Function.update w.queues i queue)
    (balance : w.stmts i ++ put = out ++ queue.reduceOption)
    (pushed : w'.pushed = w.pushed ++ put.map (i, ·)) (taken : w'.taken = w.taken ++ out.map (i, ·))
    (executed : (w'.executed ++ w'.hand).Sublist (w.executed ++ w.hand ++ out.map (i, ·)))
    (same : w'.tags.Perm w.tags) (next : w'.next = w.next) : w'.Ordered where
  fifo j := by
    rw [stmts, queues, pushed, taken, part_append, part_append, ordered.fifo]
    by_cases here : i = j
    · subst here
      rw [Function.update_self, part_map_self, part_map_self, List.append_assoc, List.append_assoc,
        balance]
    · rw [Function.update_of_ne (Ne.symm here), part_map_other here, part_map_other here,
        List.append_nil, List.append_nil]
      rfl
  taken := by
    rw [taken]
    exact executed.trans (ordered.taken.append (.refl _))
  distinct := same.nodup_iff.mpr ordered.distinct
  fresh tag member := by
    rw [next]
    exact ordered.fresh tag (same.mem_iff.mp member)

theorem Ordered.drained (ordered : w.Ordered) (idle : w.hand = []) (still : w'.hand = [])
    (queues : w'.queues = (w.drain i).queues) (pushed : w'.pushed = w.pushed)
    (taken : w'.taken = (w.drain i).taken)
    (executed : w'.executed.Sublist (w.executed ++ (w.stmts i).map (i, ·)))
    (pushers : w'.pushers = w.pushers) (next : w'.next = w.next) : w'.Ordered := by
  refine ordered.change [] (w.stmts i) queues ?_ ?_ taken ?_ ?_ next
  · simp
  · rw [pushed, List.map_nil, List.append_nil]
  · rw [idle, still, List.append_nil, List.append_nil]
    exact executed
  · rw [tags, tags, pushed, pushers]

theorem ordered_trypop (ordered : w.Ordered) (idle : w.hand = []) :
    (w.trypop ttl i).Ordered := by
  unfold trypop
  split
  case h_1 empty => exact ordered.frame rfl rfl rfl (by rw [idle]; rfl) rfl rfl
  case h_2 rest queue =>
    refine ordered.change [] [] rfl ?_ ?_ ?_ ?_ ?_ rfl
    · simp [stmts, queue]
    · simp
    · simp
    · rw [idle]
      simp [hand]
    · rfl
  case h_3 stmt rest queue =>
    refine ordered.change [] [stmt] rfl ?_ ?_ rfl ?_ ?_ rfl
    · simp [stmts, queue]
    · simp
    · rw [idle]
      simp [hand]
    · rfl

theorem Ordered.goes (ordered : w.Ordered) (idle : w.hand = []) (still : w'.hand = [])
    (queues : w'.queues = w.queues) (pushed : w'.pushed = w.pushed) (taken : w'.taken = w.taken)
    (executed : w'.executed = w.executed) (pushers : w'.pushers = w.pushers)
    (next : w'.next = w.next) : w'.Ordered :=
  ordered.frame queues pushed taken (by rw [executed, idle, still]) pushers next

theorem ordered_execute {stmt : SqlStmt} (ordered : w.Ordered)
    (place : w.pc = .executing ttl i stmt) : (w.execute ok ttl i stmt).Ordered := by
  have busy : w.hand = [(i, stmt)] := by rw [hand, place]
  refine ordered.frame rfl rfl rfl ?_ rfl rfl
  rw [busy, execute, hand]
  cases ok <;> simp

theorem ordered_threadStep (ordered : w.Ordered) : (w.threadStep ok).Ordered := by
  cases place : w.pc with
  | executing ttl i stmt =>
    simp only [threadStep, place]
    exact ordered_execute ordered place
  | ended => simpa only [threadStep, place] using ordered
  | _ =>
    -- nothing is in hand: the thread waits, goes on, takes a statement or empties a queue
    have idle : w.hand = [] := by rw [hand, place]
    simp only [threadStep, place]
    repeat' split
    all_goals first
      | exact ordered
      | exact ordered_trypop ordered idle
      | exact ordered.goes idle rfl rfl rfl rfl rfl rfl rfl
      | exact ordered.drained idle rfl rfl rfl rfl (List.sublist_append_left _ _) rfl rfl
      | exact ordered.drained idle rfl rfl rfl rfl (.refl _) rfl rfl

/-! ### The pushes -/

theorem pusher_cases {twice : Bool} {p : QmPusher} (found : w.pusher tag twice = some p) :
    p ∈ w.pushers ∧ p.stmt.tag = tag := by
  refine ⟨List.mem_of_find?_eq_some found, ?_⟩
  have tests := List.find?_some found
  simp only [decide_eq_true_eq] at tests
  exact tests.1

theorem others_perm {p : QmPusher} (distinct : (w.pushers.map fun p => p.stmt.tag).Nodup)
    (member : p ∈ w.pushers) :
    (p.stmt.tag :: (w.others p.stmt.tag).map fun p => p.stmt.tag).Perm
      (w.pushers.map fun p => p.stmt.tag) := by
  have erased : (w.others p.stmt.tag).map (fun p => p.stmt.tag) =
      (w.pushers.map fun p => p.stmt.tag).erase p.stmt.tag := by
    rw [distinct.erase_eq_filter, List.filter_map]
    refine congrArg _ (List.filter_congr fun q _ => ?_)
    simp [bne, beq_eq_decide]
  have among : p.stmt.tag ∈ w.pushers.map fun p => p.stmt.tag := List.mem_map.mpr ⟨p, member, rfl⟩
  rw [erased]
  exact (List.perm_cons_erase among).symm

theorem Ordered.pushers_distinct (ordered : w.Ordered) :
    (w.pushers.map fun p => p.stmt.tag).Nodup :=
  (List.nodup_append.mp ordered.distinct).2.1

theorem ordered_pushTest {pos : Nat} {sql : Text} (ordered : w.Ordered) :
    (w.pushTest pos sql).Ordered := by
  unfold pushTest
  split
  · refine { ordered with fresh := fun tag member => ?_ }
    exact Nat.lt_succ_of_lt (ordered.fresh tag member)
  · have longer : w.pushed.map (fun entry => entry.2.tag) ++
        (w.pushers ++ [(⟨pos, ⟨w.next, sql⟩, false⟩ : QmPusher)]).map (fun p => p.stmt.tag) =
          w.tags ++ [w.next] := by
      rw [List.map_append, ← List.append_assoc]
      rfl
    refine ⟨ordered.fifo, ordered.taken, ?_, ?_⟩
    · rw [tags, longer, List.nodup_append]
      refine ⟨ordered.distinct, List.nodup_singleton _, fun tag member new here => ?_⟩
      rw [List.mem_singleton.mp here]
      exact Nat.ne_of_lt (ordered.fresh tag member)
    · rw [tags, longer]
      intro tag member
      rcases List.mem_append.mp member with old | new
      · exact Nat.lt_succ_of_lt (ordered.fresh tag old)
      · rw [List.mem_singleton.mp new]
        exact Nat.lt_succ_self _

theorem ordered_pushRetest (ordered : w.Ordered) : (w.pushRetest tag).Ordered := by
  unfold pushRetest
  split
  case h_1 => exact ordered
  case h_2 p found =>
    obtain ⟨member, rfl⟩ := pusher_cases found
    have same := others_perm ordered.pushers_distinct member
    split
    · have fewer : List.Sublist (w.pushed.map (fun entry => entry.2.tag) ++
          (w.others p.stmt.tag).map fun p => p.stmt.tag) w.tags :=
        (List.Sublist.refl _).append (List.filter_sublist.map _)
      exact ⟨ordered.fifo, ordered.taken, ordered.distinct.sublist fewer,
        fun tag member => ordered.fresh tag (fewer.subset member)⟩
    · have again : List.Perm (w.pushed.map (fun entry => entry.2.tag) ++
          ((w.others p.stmt.tag).map (fun p => p.stmt.tag) ++ [p.stmt.tag])) w.tags :=
        ((List.perm_append_singleton _ _).trans same).append_left _
      refine ⟨ordered.fifo, ordered.taken, ?_, ?_⟩
      all_goals rw [tags, List.map_append]
      · exact again.nodup_iff.mpr ordered.distinct
      · exact fun tag member => ordered.fresh tag (again.mem_iff.mp member)

theorem ordered_pushLocked (ordered : w.Ordered) : (w.pushLocked tag).Ordered := by
  unfold pushLocked
  split
  case h_1 => exact ordered
  case h_2 p found =>
    obtain ⟨member, rfl⟩ := pusher_cases found
    have same := others_perm ordered.pushers_distinct member
    split
    · exact ordered
    · split
      · refine ordered.change [p.stmt] [] rfl ?_ rfl ?_ ?_ ?_ rfl
        · simp [stmts, List.reduceOption]
        · simp [put]
        · simp [put, hand]
        · rw [tags, tags, put, List.map_append, List.append_assoc]
          exact same.append_left _
      · exact ordered.frame rfl rfl rfl rfl rfl rfl

theorem ordered_step (ordered : w.Ordered) (s : QmStep) : (w.step s).Ordered := by
  cases s with
  | pushTest pos sql => exact ordered_pushTest ordered
  | pushRetest tag => exact ordered_pushRetest ordered
  | pushLocked tag => exact ordered_pushLocked ordered
  | pause on => exact ordered.frame rfl rfl rfl rfl rfl rfl
  | stop =>
    simp only [step]
    split
    · exact ordered.frame rfl rfl rfl rfl rfl rfl
    · exact ordered
  | stopPush i =>
    simp only [step]
    split
    · refine ordered.change [] [] rfl ?_ ?_ ?_ ?_ ?_ rfl
      · simp [stmts, List.reduceOption]
      · rfl
      · simp [put]
      · simp [put, hand]
      · simp [put, tags]
    · exact ordered
  | thread ok => exact ordered_threadStep ordered
  | destroy i =>
    simp only [step]
    split
    case isTrue ended =>
      have idle : w.hand = [] := by rw [hand, ended.1]
      refine ordered.drained idle ?_ rfl rfl rfl (List.sublist_append_left _ _) rfl rfl
      exact idle
    case isFalse => exact ordered

/-! ### Losses -/

/-- The manager is paused where the thread empties the queues for that; when it ends nothing is
accepted any more, and what it has emptied stays empty. -/
def Placed (w : QmWorld) : Prop :=
  match w.pc with
  | .flushing _ => w.paused = true
  | .closing j => w.running ≠ .on ∧ ∀ i < j, w.stmts i = []
  | .ended => w.running ≠ .on ∧ ∀ i < w.numq, w.stmts i = []
  | _ => True

structure Safe (w : QmWorld) : Prop where
  spared : ∀ entry ∈ w.discarded, entry.2 = true
  idle : w.running ≠ .on → w.pushers = []
  placed : w.Placed

theorem Placed.paused (placed : w.Placed) (flushes : w.pc = .flushing i) : w.paused = true := by
  rw [Placed, flushes] at placed
  exact placed

theorem Placed.kept (placed : w.Placed) (pc : w'.pc = w.pc) (numq : w'.numq = w.numq)
    (flushing : ∀ i, w.pc = .flushing i → w'.paused = true)
    (ends : w.running ≠ .on → w'.running ≠ .on ∧ ∀ i, w'.stmts i = w.stmts i) : w'.Placed := by
  unfold Placed at *
  rw [pc, numq]
  cases place : w.pc with
  | flushing i => exact flushing i place
  | closing j | ended =>
    simp only [place] at placed
    obtain ⟨off, same⟩ := ends placed.1
    exact ⟨off, fun i below => (same i).trans (placed.2 i below)⟩
  | _ => trivial

theorem Safe.frame (safe : w.Safe) (pc : w'.pc = w.pc) (paused : w'.paused = w.paused)
    (running : w'.running = w.running) (numq : w'.numq = w.numq)
    (stmts : ∀ i, w'.stmts i = w.stmts i) (discarded : w'.discarded = w.discarded)
    (pushers : w'.running ≠ .on → w'.pushers = []) : w'.Safe :=
  ⟨discarded ▸ safe.spared, pushers, safe.placed.kept pc numq
    (fun _ flushes => paused.trans (safe.placed.paused flushes)) fun off => ⟨running ▸ off, stmts⟩⟩

theorem stmts_update {queue : List (Option SqlStmt)}
    (queues : w'.queues = Function.update w.queues i queue) (j : Nat) :
    w'.stmts j = if j = i then queue.reduceOption else w.stmts j := by
  unfold stmts
  rw [queues, Function.update_apply]
  split <;> rfl

theorem safe_threadStep (safe : w.Safe) : (w.threadStep ok).Safe := by
  obtain ⟨spared, idle, placed⟩ := safe
  have goes {w' : QmWorld} (discarded : w'.discarded = w.discarded)
      (running : w'.running = w.running) (pushers : w'.pushers = w.pushers) (placed : w'.Placed) :
      w'.Safe := ⟨discarded ▸ spared, running ▸ pushers ▸ idle, placed⟩
  unfold Placed at placed
  cases place : w.pc with
  | flushing i =>
    simp only [place] at placed
    simp only [threadStep, place]
    split
    · split
      · exact goes rfl rfl rfl (by rw [Placed, place]; exact placed)
      · refine ⟨List.forall_mem_append.mpr ⟨spared, ?_⟩, idle, placed⟩
        rw [List.forall_mem_map]
        exact fun _ _ => placed
    · exact goes rfl rfl rfl trivial
  | closing i =>
    simp only [place] at placed
    simp only [threadStep, place]
    split
    · split
      · exact goes rfl rfl rfl (by rw [Placed, place]; exact placed)
      · refine goes rfl rfl rfl ⟨placed.1, fun j below => ?_⟩
        rw [stmts_update (w := w) rfl]
        split
        · rfl
        · exact placed.2 j (by omega)
    next beyond =>
      exact ⟨spared, fun _ => idle placed.1, nofun, fun j below =>
        placed.2 j (Nat.lt_of_lt_of_le below (not_lt.mp beyond))⟩
  | connecting =>
    simp only [threadStep, place]
    split
    · exact ⟨spared, fun off => absurd rfl off, trivial⟩
    · exact goes rfl rfl rfl (by rw [Placed, place]; trivial)
  | _ =>
    simp only [place] at placed
    simp only [threadStep, place, trypop, execute]
    repeat' split
    all_goals first
      | exact goes rfl rfl rfl trivial
      | exact goes rfl rfl rfl (by rw [Placed, place]; exact placed)
      | exact goes rfl rfl rfl ⟨‹_›, nofun⟩
      | exact goes rfl rfl rfl ‹_›

theorem safe_step (w : QmWorld) (s : QmStep) (safe : w.Safe) (calm : w.Calm s) :
    (w.step s).Safe := by
  have same (i : Nat) : w.stmts i = w.stmts i := rfl
  cases s with
  | thread ok => exact safe_threadStep safe
  | pushTest pos sql =>
    simp only [step, pushTest]
    split
    · exact safe.frame rfl rfl rfl rfl same rfl safe.idle
    next accepted =>
      exact safe.frame rfl rfl rfl rfl same rfl fun off => absurd (.inr off) accepted
  | pushRetest tag =>
    simp only [step, pushRetest]
    split
    · exact safe
    · split
      next off =>
        refine safe.frame rfl rfl rfl rfl same rfl fun _ => ?_
        show w.others tag = []
        rw [others, safe.idle off]
        rfl
      next running => exact safe.frame rfl rfl rfl rfl same rfl fun off => absurd off running
  | pushLocked tag =>
    simp only [step, pushLocked]
    split
    · exact safe
    next p found =>
      have running : w.running = .on := by
        by_contra off
        have member := (pusher_cases found).1
        rw [safe.idle off] at member
        cases member
      split
      · exact safe
      · split
        · exact ⟨safe.spared, fun off => absurd running off, safe.placed.kept rfl rfl
            (fun _ => safe.placed.paused) fun off => absurd running off⟩
        · exact safe.frame rfl rfl rfl rfl same rfl safe.idle
  | pause on =>
    refine ⟨safe.spared, safe.idle, safe.placed.kept rfl rfl (fun i flushes => ?_)
      fun off => ⟨off, same⟩⟩
    exact calm.resolve_right (by rw [QmWorld.flushes, flushes]; nofun)
  | stop =>
    simp only [step]
    split
    next running =>
      exact ⟨safe.spared, fun _ => calm running, safe.placed.kept rfl rfl
        (fun _ => safe.placed.paused) fun off => absurd running off⟩
    · exact safe
  | stopPush i =>
    simp only [step]
    split
    · refine safe.frame rfl rfl rfl rfl (fun j => ?_) rfl safe.idle
      rw [stmts_update (w := w) rfl]
      split
      next here => simp [stmts, here, List.reduceOption]
      · rfl
    · exact safe
  | destroy i =>
    simp only [step]
    split
    next may =>
      have placed := safe.placed
      simp only [Placed, may.1] at placed
      have none : w.stmts i = [] := placed.2 i may.2.1
      refine safe.frame rfl rfl rfl rfl (fun j => ?_) ?_ safe.idle
      · rw [stmts_update (w := w) rfl]
        split
        next here => rw [here, none]; rfl
        · rfl
      · simp [flush, drain, none]
    · exact safe

/-! ### Long transactions -/

/-- While statements are executed, `ttl` is the number of those that were. -/
def Counts (limit : Nat) (w : QmWorld) : Prop :=
  match w.pc with
  | .popping ttl _ => w.count = ttl
  | .executing ttl _ _ => w.count = ttl ∧ ttl ≤ limit
  | _ => True

structure Bounded (limit : Nat) (w : QmWorld) : Prop where
  limited : w.maxTrans = limit
  most : w.most ≤ limit + 1
  counts : w.Counts limit

theorem bounded_threadStep {limit : Nat} (some_ : limit ≠ 0) (small : limit + 1 < 2 ^ 32)
    (bounded : w.Bounded limit) : (w.threadStep ok).Bounded limit := by
  obtain ⟨limited, most, counts⟩ := bounded
  rw [Counts] at counts
  cases place : w.pc with
  | executing ttl i stmt =>
    rw [place] at counts
    obtain ⟨rfl, within⟩ := counts
    simp only [threadStep, place, execute]
    refine ⟨limited, max_le most (Nat.succ_le_succ within), ?_⟩
    cases ok with
    | false => trivial
    | true =>
      show w.count + 1 = (w.count + 1) % 2 ^ 32
      omega
  | popping ttl i =>
    rw [place] at counts
    simp only [threadStep, place, trypop]
    repeat' split
    case h_3 may _ _ _ _ _ =>
      exact ⟨limited, most, counts, limited ▸ may.1.resolve_left (limited ▸ some_)⟩
    all_goals exact ⟨limited, most, by simp [Counts, *]⟩
  | _ =>
    simp only [threadStep, place]
    repeat' split
    all_goals exact ⟨limited, most, by simp [Counts, *]⟩

/-- **One statement more than `max_trans`**, at the most: the loop goes on while `ttl` is not larger. -/
theorem bounded_step {limit : Nat} (some_ : limit ≠ 0) (small : limit + 1 < 2 ^ 32) (w : QmWorld)
    (s : QmStep) (bounded : w.Bounded limit) : (w.step s).Bounded limit := by
  cases s with
  | thread ok => exact bounded_threadStep some_ small bounded
  | _ =>
    simp only [step, pushTest, pushRetest, pushLocked, put, flush, drain]
    repeat' split
    all_goals exact { bounded with }

/-- What a transaction has executed, what is in hand, and what is left fit into one. -/
def Fitting (limit : Nat) (w : QmWorld) : Prop :=
  match w.pc with
  | .popping _ _ => w.count + w.queued ≤ limit
  | .executing _ _ _ => w.count + 1 + w.queued ≤ limit
  | _ => True

structure Fits (limit : Nat) (w : QmWorld) : Prop where
  limited : w.maxTrans = limit
  most : w.most ≤ limit
  fitting : w.Fitting limit

theorem queued_congr (numq : w'.numq = w.numq) (stmts : ∀ i, w'.stmts i = w.stmts i) :
    w'.queued = w.queued := by
  unfold queued
  rw [numq]
  exact Finset.sum_congr rfl fun i _ => by rw [stmts]

theorem queued_pop {stmt : SqlStmt} {rest : List (Option SqlStmt)} (inside : i < w.numq)
    (queue : w.queues i = some stmt :: rest) (numq : w'.numq = w.numq)
    (queues : w'.queues = Function.update w.queues i rest) : w'.queued + 1 = w.queued := by
  have member : i ∈ Finset.range w.numq := Finset.mem_range.mpr inside
  have before : (w.stmts i).length = rest.reduceOption.length + 1 := by simp [stmts, queue]
  have after : (w'.stmts i).length = rest.reduceOption.length := by
    rw [stmts_update queues, if_pos rfl]
  have others : ∀ j ∈ (Finset.range w.numq).erase i, (w'.stmts j).length = (w.stmts j).length :=
    fun j other => by rw [stmts_update queues, if_neg (Finset.ne_of_mem_erase other)]
  unfold queued
  rw [numq, ← Finset.add_sum_erase _ _ member, ← Finset.add_sum_erase _ _ member,
    Finset.sum_congr rfl others, before, after]
  omega

theorem fits_threadStep {limit : Nat} (fits : w.Fits limit)
    (short : w.pc = .beginning → w.queued ≤ limit) : (w.threadStep ok).Fits limit := by
  obtain ⟨limited, most, fitting⟩ := fits
  have still (same : w.Fitting limit) : w.Fits limit := ⟨limited, most, same⟩
  rw [Fitting] at fitting
  cases place : w.pc with
  | executing ttl i stmt =>
    rw [place] at fitting
    dsimp only at fitting
    simp only [threadStep, place, execute]
    refine ⟨limited, max_le most (by omega), ?_⟩
    cases ok with
    | false => trivial
    | true => exact fitting
  | popping ttl i =>
    rw [place] at fitting
    simp only [threadStep, place, trypop]
    split
    next may =>
      split
      · exact still (by rw [Fitting, place]; exact fitting)
      · split
        next empty => exact ⟨limited, most, fitting⟩
        next rest queue =>
          refine ⟨limited, most, ?_⟩
          let popped : QmWorld :=
            { w with queues := Function.update w.queues i rest, pc := .popping ttl (i + 1) }
          have same : popped.queued = w.queued := queued_congr rfl fun j => by
            rw [stmts_update (w := w) rfl]
            split
            next here => simp [stmts, here, queue]
            · rfl
          show w.count + popped.queued ≤ limit
          rw [same]
          exact fitting
        next stmt rest queue =>
          refine ⟨limited, most, ?_⟩
          let popped : QmWorld := { w with
            queues := Function.update w.queues i rest
            taken := w.taken ++ [(i, stmt)]
            pc := .executing ttl i stmt }
          have fewer : popped.queued + 1 = w.queued := queued_pop may.2 queue rfl rfl
          dsimp only at fitting
          show w.count + 1 + popped.queued ≤ limit
          omega
    · exact ⟨limited, most, trivial⟩
  | beginning =>
    simp only [threadStep, place]
    refine ⟨limited, most, ?_⟩
    cases ok with
    | false => trivial
    | true =>
      show 0 + w.queued ≤ limit
      rw [Nat.zero_add]
      exact short place
  | _ =>
    simp only [threadStep, place]
    repeat' split
    all_goals exact ⟨limited, most, by simp [Fitting, *]⟩

theorem fits_step {limit : Nat} (some_ : limit ≠ 0) (w : QmWorld) (s : QmStep)
    (fits : w.Fits limit) (calm : w.Calm s) : (w.step s).Fits limit := by
  have limited := fits.limited
  cases s with
  | thread ok => exact fits_threadStep fits fun begins => limited ▸ calm (limited ▸ some_) begins
  | pushLocked tag =>
    have outside {w' : QmWorld} (pc : w'.pc = w.pc) : w'.Fitting limit := by
      have quiet := calm (limited ▸ some_)
      unfold Fitting
      unfold executes at quiet
      rw [pc]
      cases place : w.pc <;> simp_all
    simp only [step, pushLocked]
    repeat' split
    all_goals exact ⟨fits.limited, fits.most, outside rfl⟩
  | stopPush i =>
    simp only [step]
    split
    · have same : (w.put i none).queued = w.queued := queued_congr rfl fun j => by
        rw [stmts_update (w := w) rfl]
        split
        next here => simp [stmts, here, List.reduceOption]
        · rfl
      refine ⟨fits.limited, fits.most, ?_⟩
      have fitting := fits.fitting
      unfold Fitting at *
      rw [same]
      exact fitting
    · exact fits
  | destroy i =>
    simp only [step]
    split
    next may => exact ⟨fits.limited, fits.most, by simp [Fitting, flush, drain, may.1]⟩
    · exact fits
  | _ =>
    simp only [step, pushTest, pushRetest]
    repeat' split
    all_goals exact { fits with }

end QmWorld

/-! ### Every run -/

/-- **The queue manager over a run.** Whatever the steps are, each statement is executed at most once, in
the order of its queue, and a transaction is at most one statement too long. In a calm run no statement
is lost unless the manager is paused, and no transaction is too long. -/
theorem queue_manager_right (numq : Nat) {maxTrans : Nat} (small : maxTrans + 1 < 2 ^ 32)
    (steps : List QmStep) :
    let w := run step (start numq maxTrans) steps
    ((w.executed.map fun entry => entry.2.tag).Nodup ∧
      (∀ i, (part i w.executed).Sublist (part i w.pushed)) ∧
      (maxTrans ≠ 0 → w.most ≤ maxTrans + 1)) ∧
    (Along step Calm (start numq maxTrans) steps → w.Right maxTrans) := by
  intro w
  have ordered : w.Ordered := run_keeps_all (P := Ordered) (fun _ s inv => ordered_step inv s)
    (ordered_start numq maxTrans) steps
  refine ⟨⟨ordered.once, ordered.order, fun some_ => ?_⟩, fun calm => ?_⟩
  · have bounded : (start numq maxTrans).Bounded maxTrans := ⟨rfl, Nat.zero_le _, trivial⟩
    exact (run_keeps_all (bounded_step some_ small) bounded steps).most
  · have safe : (start numq maxTrans).Safe :=
      ⟨fun _ member => absurd member List.not_mem_nil, fun _ => rfl, trivial⟩
    have fits : (start numq maxTrans).Fits maxTrans := ⟨rfl, Nat.zero_le _, trivial⟩
    refine ⟨ordered.once, ordered.order, ?_, fun some_ => ?_⟩
    · exact (run_keeps safe_step safe calm).spared
    · exact (run_keeps (fits_step some_) fits calm).most

/-! ### A transaction too long, and two losses -/

def pushSteps (tag : Nat) : List QmStep := [.pushTest 0 [], .pushRetest tag, .pushLocked tag]

def threadSteps (n : Nat) : List QmStep := List.replicate n (.thread true)

/-- Two statements are executed in one transaction, the manager is paused and resumed around the
emptying of its queues, and it is stopped behind a third statement and destroyed. -/
def calmRun : List QmStep :=
  threadSteps 1 ++ pushSteps 0 ++ pushSteps 1 ++ threadSteps 12 ++ [.pause true] ++
    threadSteps 7 ++ [.pause false] ++ pushSteps 2 ++ [.stop] ++ threadSteps 12 ++ [.destroy 0]

theorem queue_manager_right_calm :
    let w := run step (.start 1 2) calmRun
    w.executed.map (fun entry => entry.2.tag) = [0, 1, 2] ∧ w.Right 2 := by
  have calm : Along step Calm (start 1 2) calmRun := by decide +kernel
  exact ⟨by decide +kernel, (queue_manager_right 1 (by decide) calmRun).2 calm⟩

/-- A thread with `max_trans` 1 that finds two statements. -/
def longRun : QmWorld :=
  run step (.start 1 1) (threadSteps 1 ++ pushSteps 0 ++ pushSteps 1 ++ threadSteps 9)

def resumedRun : QmWorld :=
  run step (.start 1 0)
    (threadSteps 1 ++ [.pause true] ++ threadSteps 2 ++ [.pause false] ++ pushSteps 0 ++ threadSteps 1)

def lateRun : QmWorld :=
  run step (.start 1 0)
    (threadSteps 1 ++ [.pushTest 0 [], .pushRetest 0, .stop] ++ threadSteps 4 ++
      [.pushLocked 0, .destroy 0])

/-- With `max_trans` 1 a transaction executes two statements, and statements are lost though the manager
is not paused. -/
theorem queue_manager_wrong :
    (longRun.most = 2 ∧ resumedRun.discarded = [(⟨0, []⟩, false)] ∧
      lateRun.discarded = [(⟨0, []⟩, false)]) ∧
    ¬ longRun.Right 1 ∧ ¬ resumedRun.Right 0 ∧ ¬ lateRun.Right 0 := by
  have runs : longRun.most = 2 ∧ resumedRun.discarded = [(⟨0, []⟩, false)] ∧
      lateRun.discarded = [(⟨0, []⟩, false)] := by decide
  refine ⟨runs, fun right => ?_, fun right => ?_, fun right => ?_⟩
  · exact absurd (right.bounded (by decide)) (by decide)
  · exact absurd (right.spared (⟨0, []⟩, false) (by rw [runs.2.1]; decide)) (by decide)
  · exact absurd (right.spared (⟨0, []⟩, false) (by rw [runs.2.2]; decide)) (by decide)

namespace QmWorld
variable {w w' : QmWorld} {ok : Bool} {i ttl : Nat}

/-! ### What becomes of the statements -/

/-- What was taken out of the queues was executed, is in hand or was thrown away, each statement as
often as it was taken. -/
def Conserved (w : QmWorld) : Prop :=
  (w.taken.map Prod.snd).Perm
    ((w.executed ++ w.hand).map Prod.snd ++ w.discarded.map Prod.fst)

theorem Conserved.frame (conserved : w.Conserved)
    (executed : w'.executed ++ w'.hand = w.executed ++ w.hand)
    (discarded : w'.discarded = w.discarded) (taken : w'.taken = w.taken) : w'.Conserved := by
  rw [Conserved, executed, discarded, taken]
  exact conserved

theorem Conserved.change (conserved : w.Conserved) (idle : w.hand = []) (done lost : List SqlStmt)
    (executed : w'.executed ++ w'.hand = w.executed ++ done.map (i, ·))
    (discarded : w'.discarded = w.discarded ++ lost.map (·, w.paused))
    (taken : w'.taken = w.taken ++ (done ++ lost).map (i, ·)) : w'.Conserved := by
  have out (stmts : List SqlStmt) : (stmts.map (i, ·)).map Prod.snd = stmts := by simp
  have away : (lost.map (·, w.paused)).map Prod.fst = lost := by simp [Function.comp_def]
  rw [Conserved, idle, List.append_nil] at conserved
  rw [Conserved, executed, discarded, taken]
  simp only [List.map_append, out, away, List.append_assoc]
  refine (conserved.append_right _).trans ?_
  rw [List.append_assoc]
  exact (List.perm_append_comm_assoc ..).append_left _

theorem conserved_threadStep (conserved : w.Conserved) : (w.threadStep ok).Conserved := by
  cases place : w.pc with
  | executing ttl i stmt =>
    have busy : w.hand = [(i, stmt)] := by rw [hand, place]
    simp only [threadStep, place]
    refine conserved.frame ?_ rfl rfl
    rw [busy, execute, hand]
    cases ok <;> simp
  | ended => simpa only [threadStep, place] using conserved
  | _ =>
    have idle : w.hand = [] := by rw [hand, place]
    simp only [threadStep, place, trypop]
    repeat' split
    all_goals first
      | exact conserved
      | exact conserved.frame (by rw [idle]; rfl) rfl rfl
      | exact conserved.change idle [_] [] rfl (List.append_nil _).symm rfl
      | exact conserved.change idle [] (w.stmts _) rfl rfl rfl
      | exact conserved.change idle (w.stmts _) [] (List.append_nil _) (List.append_nil _).symm
          (by rw [List.append_nil]; rfl)

theorem conserved_step (w : QmWorld) (s : QmStep) (conserved : w.Conserved) :
    (w.step s).Conserved := by
  cases s with
  | thread ok => exact conserved_threadStep conserved
  | destroy i =>
    simp only [step]
    split
    case isTrue ended =>
      have idle : w.hand = [] := by rw [hand, ended.1]
      refine conserved.change idle [] (w.stmts i) ?_ rfl rfl
      exact congrArg (w.executed ++ ·) idle
    case isFalse => exact conserved
  | _ =>
    simp only [step, pushTest, pushRetest, pushLocked, put]
    repeat' split
    all_goals exact conserved.frame rfl rfl rfl

end QmWorld

/-- **No statement gets lost or doubled**: in every run, what was pushed into a queue has been taken
out or is still there, in its order; and what was taken out has been executed, is in hand or was
thrown away, each statement once. -/
theorem statements_conserved (numq maxTrans : Nat) (steps : List QmStep) :
    let w := run QmWorld.step (.start numq maxTrans) steps
    (w.pushed.map fun entry => entry.2.tag).Nodup ∧
      (∀ i, part i w.pushed = part i w.taken ++ w.stmts i) ∧
      (w.taken.map Prod.snd).Perm
        ((w.executed ++ w.hand).map Prod.snd ++ w.discarded.map Prod.fst) := by
  intro w
  have ordered : w.Ordered := run_keeps_all (P := Ordered) (fun _ s inv => ordered_step inv s)
    (ordered_start numq maxTrans) steps
  have start : (start numq maxTrans).Conserved := List.Perm.nil
  refine ⟨(List.nodup_append.mp ordered.distinct).1, ordered.fifo, ?_⟩
  exact run_keeps_all conserved_step start steps

end FreeSwitch
