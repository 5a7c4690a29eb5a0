/-
**The SQL queue manager.**

Statements are pushed into one of the queues of a manager, and the thread of the manager takes them out
and executes them, so many to a transaction. A push tests first whether the manager takes statements,
and only then takes the lock on the queues. While the manager is paused its thread empties the queues
without executing anything; when it is stopped, it executes what is left.

A world has the queues, the thread with the place it is at, and the calls to
`switch_sql_queue_manager_push` that have not returned. What is done under the lock is one step. A push
into a full queue keeps the lock and waits, and nobody can take anything out.
-/

import FreeSwitch.Lib.CString
import FreeSwitch.Lib.Fifo

namespace FreeSwitch

open CString

/-! ### The state -/

structure SqlStmt where
  tag : Nat
  sql : Text
  deriving DecidableEq

/-- `thread_running`: 0, 1 and -1. -/
inductive QmRunning
  | off
  | on
  | stopping
  deriving DecidableEq

/-- The places of `switch_user_sql_thread` and `do_trans`. -/
inductive QmPc
  | connecting
  | top
  | look
  | flushing (i : Nat)
  | sizing (i ttl : Nat)
  | beginning
  | popping (ttl i : Nat)
  | executing (ttl i : Nat) (stmt : SqlStmt)
  | committing (ttl : Nat)
  | check
  | closing (i : Nat)
  | ended
  deriving DecidableEq

/-- A call to `switch_sql_queue_manager_push`: it has passed the first test, or both. -/
structure QmPusher where
  pos : Nat
  stmt : SqlStmt
  twice : Bool
  deriving DecidableEq

/-- The manager. A `NULL` in a queue is `none`. From `pushed` on: what was put into the queues and
taken out of them, executed, and thrown away, with whether the manager was paused then; `count` is
the number of statements of the transaction, and `most` the largest. -/
structure QmWorld where
  numq : Nat
  maxTrans : Nat
  queues : Nat → List (Option SqlStmt)
  paused : Bool
  running : QmRunning
  pc : QmPc
  pushers : List QmPusher
  stuck : Bool
  stopCalled : Bool
  next : Nat
  pushed : List (Nat × SqlStmt)
  taken : List (Nat × SqlStmt)
  executed : List (Nat × SqlStmt)
  discarded : List (SqlStmt × Bool)
  count : Nat
  most : Nat

def sqlQueueLen : Nat := 100000

/-- `switch_sql_queue_manager_init_name` and `switch_sql_queue_manager_start`. -/
def QmWorld.start (numq maxTrans : Nat) : QmWorld where
  numq := if numq = 0 then 1 else numq
  maxTrans := maxTrans
  queues := fun _ => []
  paused := false
  running := .off
  pc := .connecting
  pushers := []
  stuck := false
  stopCalled := false
  next := 0
  pushed := []
  taken := []
  executed := []
  discarded := []
  count := 0
  most := 0

namespace QmWorld

/-! ### The queues -/

variable (w : QmWorld)

def stmts (i : Nat) : List SqlStmt := (w.queues i).reduceOption

/-- `switch_queue_push`, where there is room. -/
def put (i : Nat) (item : Option SqlStmt) : QmWorld :=
  { w with
    queues := Function.update w.queues i (w.queues i ++ [item])
    pushed := w.pushed ++ (item.toList.map (i, ·)) }

def drain (i : Nat) : QmWorld :=
  { w with
    queues := Function.update w.queues i []
    taken := w.taken ++ (w.stmts i).map (i, ·) }

/-- `do_flush` without a handle. -/
def flush (i : Nat) : QmWorld :=
  { w.drain i with discarded := w.discarded ++ (w.stmts i).map (·, w.paused) }

/-- `do_flush` with the handle of the thread. -/
def flushWith (i : Nat) : QmWorld :=
  { w.drain i with executed := w.executed ++ (w.stmts i).map (i, ·) }

/-! ### The thread -/

/-- `switch_queue_trypop` and what follows in the inner loop of `do_trans`. -/
def trypop (ttl i : Nat) : QmWorld :=
  match w.queues i with
  | [] => { w with pc := .popping ttl (i + 1) }
  | none :: rest =>
    { w with queues := Function.update w.queues i rest, pc := .popping ttl (i + 1) }
  | some stmt :: rest =>
    { w with
      queues := Function.update w.queues i rest
      taken := w.taken ++ [(i, stmt)]
      pc := .executing ttl i stmt }

def execute (ok : Bool) (ttl i : Nat) (stmt : SqlStmt) : QmWorld :=
  { w with
    executed := w.executed ++ [(i, stmt)]
    count := w.count + 1
    most := max w.most (w.count + 1)
    pc := if ok then .popping ((ttl + 1) % 2 ^ 32) 0 else .committing ttl }

/-- The next step of the thread; `ok` says whether a connection, the beginning of a transaction or a
statement succeeds. What needs the lock waits. -/
def threadStep (ok : Bool) : QmWorld :=
  match w.pc with
  | .connecting => if ok then { w with running := .on, pc := .top } else w
  | .top => { w with pc := if w.running = .on then .look else .closing 0 }
  | .look => { w with pc := if w.paused then .flushing 0 else .sizing 0 0 }
  | .flushing i =>
    if i < w.numq then
      if w.stuck then w else { w.flush i with pc := .flushing (i + 1) }
    else { w with pc := .check }
  | .sizing i ttl =>
    if i < w.numq then { w with pc := .sizing (i + 1) ((ttl + (w.queues i).length) % 2 ^ 32) }
    else { w with pc := if ttl = 0 then .check else .beginning }
  | .beginning => { w with count := 0, pc := if ok then .popping 0 0 else .committing 0 }
  | .popping ttl i =>
    if (w.maxTrans = 0 ∨ ttl ≤ w.maxTrans) ∧ i < w.numq then
      if w.stuck then w else w.trypop ttl i
    else { w with pc := .committing ttl }
  | .executing ttl i stmt => w.execute ok ttl i stmt
  | .committing ttl => { w with pc := if ttl = w.maxTrans then .sizing 0 0 else .check }
  | .check => { w with pc := .top }
  | .closing i =>
    if i < w.numq then
      if w.stuck then w else { w.flushWith i with pc := .closing (i + 1) }
    else { w with running := .off, pc := .ended }
  | .ended => w

/-! ### The other threads -/

def pushTest (pos : Nat) (sql : Text) : QmWorld :=
  if w.paused ∨ w.running ≠ .on then { w with next := w.next + 1 }
  else { w with next := w.next + 1, pushers := w.pushers ++ [⟨pos, ⟨w.next, sql⟩, false⟩] }

def others (tag : Nat) : List QmPusher := w.pushers.filter fun p => p.stmt.tag ≠ tag

def pusher (tag : Nat) (twice : Bool) : Option QmPusher :=
  w.pushers.find? fun p => p.stmt.tag = tag ∧ p.twice = twice

def pushRetest (tag : Nat) : QmWorld :=
  match w.pusher tag false with
  | none => w
  | some p =>
    if w.running ≠ .on then { w with pushers := w.others tag }
    else
      { w with pushers := w.others tag ++
          [{ p with pos := if p.pos > w.numq - 1 then 0 else p.pos, twice := true }] }

def pushLocked (tag : Nat) : QmWorld :=
  match w.pusher tag true with
  | none => w
  | some p =>
    if w.stuck then w
    else if (w.queues p.pos).length < sqlQueueLen then
      { w.put p.pos (some p.stmt) with pushers := w.others tag }
    else { w with stuck := true }

end QmWorld

inductive QmStep
  | pushTest (pos : Nat) (sql : Text)
  | pushRetest (tag : Nat)
  | pushLocked (tag : Nat)
  | pause (on : Bool)
  | stop
  | stopPush (i : Nat)
  | thread (ok : Bool)
  | destroy (i : Nat)
  deriving DecidableEq

/-- **One step.** `switch_sql_queue_manager_stop` pushes `NULL` without the lock;
`switch_sql_queue_manager_destroy` throws away what is left when the thread has ended. -/
def QmWorld.step (w : QmWorld) : QmStep → QmWorld
  | .pushTest pos sql => w.pushTest pos sql
  | .pushRetest tag => w.pushRetest tag
  | .pushLocked tag => w.pushLocked tag
  | .pause on => { w with paused := on }
  | .stop => if w.running = .on then { w with running := .stopping, stopCalled := true } else w
  | .stopPush i =>
    if w.stopCalled ∧ i < w.numq ∧ (w.queues i).length < sqlQueueLen then w.put i none else w
  | .thread ok => w.threadStep ok
  | .destroy i => if w.pc = .ended ∧ i < w.numq ∧ w.stuck = false then w.flush i else w

end FreeSwitch
