/-
**The cache of database handles.**

Threads get handles from a pool and give them back. A request is rendered as a text, in which the case
for PostgreSQL has fallen through into that for ODBC, and a handle of the pool is reused if the
case-insensitive hash of that text is its own; otherwise a new one is opened. Idle handles are dropped
from time to time.

A call looks for a handle with `dbh_mutex` held, and opens one without it. Whether a connection can be
opened is open.

* `handles_right_iff`: no handle is mixed up exactly when the hashes of the requests tell apart what
  they ask for;
* `odbc_for_pgsql`: a request for PostgreSQL that gets an ODBC handle.
-/

import FreeSwitch.Lib.CString
import FreeSwitch.Lib.Run
import FreeSwitch.Lib.Unsigned

namespace FreeSwitch

open CString List Run Unsigned

/-! ### Requests -/

/-- `switch_cache_db_handle_type_t`. -/
inductive DbType
  | coreDb
  | odbc
  | pgsql
deriving DecidableEq

/-- `switch_cache_db_connection_options_t`, a union of one pointer (`db_path`, or `dsn` for
PostgreSQL) and of three. -/
structure DbUnion where
  dsn : Option Text
  user : Option Text
  pass : Option Text
deriving DecidableEq

inductive DbOptions
  | coreDb (path : Text)
  | odbc (dsn : Text) (user pass : Option Text)
  | pgsql (dsn : Text)
deriving DecidableEq

def DbOptions.type : DbOptions → DbType
  | .coreDb _ => .coreDb
  | .odbc _ _ _ => .odbc
  | .pgsql _ => .pgsql

/-- The arguments of `_switch_cache_db_get_db_handle`. -/
structure DbRequest where
  type : DbType
  options : DbUnion
deriving DecidableEq

def DbRequest.asked (request : DbRequest) : Option DbOptions :=
  request.options.dsn.map fun dsn =>
    match request.type with
    | .coreDb => .coreDb dsn
    | .odbc => .odbc dsn request.options.user request.options.pass
    | .pgsql => .pgsql dsn

/-- `db_type`, `odbc_user` and `odbc_pass`; the case for PostgreSQL has no `break`. -/
def DbRequest.parts (request : DbRequest) : Text × Option Text × Option Text :=
  match request.type with
  | .pgsql | .odbc => ("odbc", request.options.user, request.options.pass)
  | .coreDb => ("core_db", none, none)

/-- A `%s`. -/
def printed (s : Option Text) : Text := s.getD "(null)"

/-- `db_str`, unless there is no `db_name`. -/
def DbRequest.dbStr (request : DbRequest) : Option Text :=
  request.options.dsn.map fun dbName =>
    let (dbType, user, pass) := request.parts
    snprintf 255 <|
      if user.isSome || pass.isSome then
        "db=\"" ++ dbName ++ "\";type=\"" ++ dbType ++ "\"user=\"" ++
          printed user ++ "\";pass=\"" ++ printed pass ++ "\""
      else "db=\"" ++ dbName ++ "\",type=\"" ++ dbType ++ "\""

variable (dbh : DbHandle) (w : DbWorld) (thread : Nat)

/-- The hash of `thread_str`, of which as many bytes are read as `db_str` has. -/
def threadHash (dbStr : Text) : Nat :=
  ciHash ((snprintf 255 ("thread=\"" ++ Nat.toDigits 10 thread ++ "\"") ++
    List.replicate 256 (Char.ofNat 0)).take dbStr.length)

/-! ### The pool -/

/-- `switch_cache_db_handle_t`; `mutex` has its owner and how often it was locked. -/
structure DbHandle where
  addr : Nat
  type : DbType
  opened : DbOptions
  hash : Nat
  threadHash : Nat
  useCount : Nat
  prune : Bool
  lastUsed : Nat
  mutex : Option (Nat × Nat)
deriving DecidableEq

/-- `switch_mutex_trylock` would succeed. -/
def DbHandle.lockable (thread : Nat) : Bool := dbh.mutex.all (·.1 = thread)

def DbHandle.lock (thread : Nat) : DbHandle :=
  { dbh with mutex := some (thread, (dbh.mutex.map (·.2)).getD 0 + 1) }

def DbHandle.unlock (thread : Nat) : DbHandle :=
  match dbh.mutex with
  | none => dbh
  | some (owner, depth) =>
    if owner ≠ thread then dbh
    else { dbh with mutex := if depth ≤ 1 then none else some (owner, depth - 1) }

/-- `_switch_cache_db_get_db_handle` has passed the test on the number of handles, or found none and
opens one. -/
inductive DbPhase
  | tested | opening
deriving DecidableEq

structure DbCall where
  thread : Nat
  request : DbRequest
  phase : DbPhase

/-- `sql_manager`, with `runtime.max_db_handles`, the calls that go on, and what was returned. -/
structure DbWorld where
  maxDbHandles : Nat
  pool : List DbHandle
  totalHandles : Nat
  totalUsedHandles : Nat
  nextAddr : Nat
  calls : List DbCall
  answers : List (DbRequest × DbHandle)

/-- The first search of `get_handle`: a handle that is bound to the thread. -/
def DbHandle.bound (dbStr : Text) : Bool :=
  dbh.threadHash = FreeSwitch.threadHash thread dbStr && dbh.hash = ciHash dbStr &&
    dbh.useCount = 0 && !dbh.prune && dbh.lockable thread

def DbHandle.fits (dbStr : Text) : Bool :=
  dbh.hash = ciHash dbStr && (dbh.type ≠ .pgsql || dbh.useCount = 0) && !dbh.prune &&
    dbh.lockable thread

/-- `get_handle`: the pool and `r`. The first search goes to the end, and locks all that it finds.
-/
def getHandle (pool : List DbHandle) (thread : Nat) (dbStr : Text) :
    List DbHandle × Option DbHandle :=
  match (pool.filter (·.bound thread dbStr)).getLast? with
  | some r => (pool.map fun dbh => if dbh.bound thread dbStr then dbh.lock thread else dbh, some r)
  | none =>
    match pool.find? (·.fits thread dbStr) with
    | some r => (pool.map fun dbh => if dbh.addr = r.addr then dbh.lock thread else dbh, some r)
    | none => (pool, none)

/-- The handle `r` is used for the text. -/
def DbHandle.use (dbStr : Text) (now : Nat) : DbHandle :=
  { dbh with
    useCount := add 32 dbh.useCount 1
    hash := ciHash dbStr
    threadHash := FreeSwitch.threadHash thread dbStr
    lastUsed := now }

def DbWorld.exhausted (w : DbWorld) : Bool :=
  w.maxDbHandles ≠ 0 && w.totalHandles ≥ w.maxDbHandles && w.totalUsedHandles ≥ w.totalHandles

def DbWorld.others (thread : Nat) : List DbCall :=
  w.calls.filter (·.thread ≠ thread)

def DbWorld.inPhase (phase : DbPhase) : Option DbCall :=
  w.calls.find? fun call => call.thread = thread && call.phase = phase

/-- The beginning of `_switch_cache_db_get_db_handle`: the counters are read without the mutex. A call
that waits, has waited too long or names no database changes nothing. -/
def DbWorld.call (request : DbRequest) : DbWorld :=
  if w.calls.any (·.thread = thread) || w.exhausted || request.dbStr.isNone then w
  else { w with calls := ⟨thread, request, .tested⟩ :: w.calls }

def DbWorld.get (now : Nat) : DbWorld :=
  match w.inPhase thread .tested with
  | none => w
  | some call =>
    match call.request.dbStr with
    | none => w
    | some dbStr =>
      match getHandle w.pool thread dbStr with
      | (pool, some r) =>
        { w with
          pool := pool.map fun dbh => if dbh.addr = r.addr then dbh.use thread dbStr now else dbh
          totalUsedHandles := add 32 w.totalUsedHandles 1
          calls := w.others thread
          answers := (call.request, r) :: w.answers }
      | (_, none) => { w with calls := ⟨thread, call.request, .opening⟩ :: w.others thread }

def DbWorld.handle (options : DbOptions) (dbStr : Text) (now : Nat) : DbHandle :=
  { addr := w.nextAddr
    type := options.type
    opened := options
    hash := ciHash dbStr
    threadHash := FreeSwitch.threadHash thread dbStr
    useCount := 1
    prune := false
    lastUsed := now
    mutex := some (thread, 1) }

/-- The rest of the call: `create_handle` and `add_handle`, if there is a connection. -/
def DbWorld.connect (connected : Bool) (now : Nat) : DbWorld :=
  match w.inPhase thread .opening with
  | none => w
  | some call =>
    let w := { w with calls := w.others thread }
    match call.request.asked, call.request.dbStr, connected with
    | some options, some dbStr, true =>
      let dbh := w.handle thread options dbStr now
      { w with
        pool := dbh :: w.pool
        totalHandles := add 32 w.totalHandles 1
        totalUsedHandles := add 32 w.totalUsedHandles 1
        nextAddr := w.nextAddr + 1
        answers := (call.request, dbh) :: w.answers }
    | _, _, _ => w

def DbHandle.release (thread now : Nat) : DbHandle :=
  let dbh := { dbh with lastUsed := now }
  let dbh := if dbh.useCount = 0 then dbh
    else
      { dbh with
        useCount := dbh.useCount - 1
        threadHash := if dbh.useCount - 1 = 0 then 1 else dbh.threadHash }
  dbh.unlock thread

/-- `switch_cache_db_release_db_handle`, for a handle that is in the pool. -/
def DbWorld.release (w : DbWorld) (thread addr now : Nat) : DbWorld :=
  if w.pool.any (·.addr = addr) then
    { w with
      pool := w.pool.map fun dbh => if dbh.addr = addr then dbh.release thread now else dbh
      totalUsedHandles := sub 32 w.totalUsedHandles 1 }
  else w

/-- `sql_close` drops the handle; it starts again behind each. With `prune` zero all go. -/
def DbHandle.drops (thread prune : Nat) : Bool :=
  let diff := prune - dbh.lastUsed
  !(prune > 0 && (dbh.useCount ≠ 0 || (diff < 30 && !dbh.prune))) && dbh.lockable thread

def DbWorld.sqlClose (thread prune : Nat) : DbWorld :=
  { w with
    pool := w.pool.filter fun dbh => !dbh.drops thread prune
    totalHandles := sub 32 w.totalHandles (w.pool.countP (·.drops thread prune)) }

inductive DbOp
  | call (thread : Nat) (request : DbRequest)
  | get (thread now : Nat)
  | connect (thread : Nat) (connected : Bool) (now : Nat)
  | release (thread addr now : Nat)
  | close (thread prune : Nat)

def DbWorld.step (w : DbWorld) : DbOp → DbWorld
  | .call thread request => w.call thread request
  | .get thread now => w.get thread now
  | .connect thread connected now => w.connect thread connected now
  | .release thread addr now => w.release thread addr now
  | .close thread prune => w.sqlClose thread prune

def DbWorld.start (maxDbHandles : Nat) : DbWorld := ⟨maxDbHandles, [], 0, 0, 0, [], []⟩

def DbOp.Over (requests : Set DbRequest) : DbOp → Prop
  | .call _ request => request ∈ requests
  | _ => True

/-! ### What every step keeps -/

open DbHandle

section Faithful

variable {requests : Set DbRequest} {w : DbWorld}

def DbHandle.For (request : DbRequest) : Prop :=
  dbh.type = request.type ∧ request.asked = some dbh.opened ∧ request.dbStr.map ciHash = some dbh.hash

/-- **The invariant.** -/
structure DbWorld.Faithful (requests : Set DbRequest) (w : DbWorld) : Prop where
  distinct : (w.pool.map addr).Nodup
  allocated : ∀ dbh ∈ w.pool, dbh.addr < w.nextAddr
  forRequest : ∀ dbh ∈ w.pool, ∃ request ∈ requests, dbh.For request
  callsOf : ∀ call ∈ w.calls, call.request ∈ requests

theorem asked_type {request : DbRequest} {options : DbOptions}
    (asked : request.asked = some options) : options.type = request.type := by
  rw [DbRequest.asked, Option.map_eq_some_iff] at asked
  obtain ⟨dsn, -, rfl⟩ := asked
  cases request.type <;> rfl

theorem DbWorld.Faithful.of_map {change : DbHandle → DbHandle} {w' : DbWorld}
    (faithful : w.Faithful requests) (isPool : w'.pool = w.pool.map change)
    (addr : w'.nextAddr = w.nextAddr) (calls : ∀ call ∈ w'.calls, call.request ∈ requests)
    (same : ∀ dbh ∈ w.pool, (change dbh).addr = dbh.addr ∧ (change dbh).type = dbh.type ∧
      (change dbh).opened = dbh.opened ∧ (change dbh).hash = dbh.hash) :
    w'.Faithful requests where
  distinct := by
    have addrs : (w.pool.map change).map DbHandle.addr = w.pool.map DbHandle.addr := by
      rw [map_map]
      exact map_congr_left fun dbh member => (same dbh member).1
    rw [isPool, addrs]
    exact faithful.distinct
  allocated dbh member := by
    rw [isPool] at member
    obtain ⟨old, inPool, rfl⟩ := mem_map.mp member
    rw [(same old inPool).1, addr]
    exact faithful.allocated old inPool
  forRequest dbh member := by
    rw [isPool] at member
    obtain ⟨old, inPool, rfl⟩ := mem_map.mp member
    obtain ⟨-, type, opened, hash⟩ := same old inPool
    obtain ⟨request, asked, isFor⟩ := faithful.forRequest old inPool
    refine ⟨request, asked, ?_⟩
    rw [DbHandle.For, type, opened, hash]
    exact isFor
  callsOf := calls

variable {dbh : DbHandle} {thread : Nat}

theorem DbWorld.Faithful.eq_of_addr (faithful : w.Faithful requests) {r : DbHandle}
    (member : dbh ∈ w.pool) (found : r ∈ w.pool) (same : dbh.addr = r.addr) : dbh = r :=
  inj_on_of_nodup_map faithful.distinct member found same

theorem bound_hash {dbStr : Text} (bound : dbh.bound thread dbStr = true) :
    dbh.hash = ciHash dbStr := by
  simp only [DbHandle.bound, Bool.and_eq_true, decide_eq_true_eq] at bound
  exact bound.1.1.1.2

theorem fits_hash {dbStr : Text} (fits : dbh.fits thread dbStr = true) :
    dbh.hash = ciHash dbStr := by
  simp only [DbHandle.fits, Bool.and_eq_true, decide_eq_true_eq] at fits
  exact fits.1.1.1

/-- **What `get_handle` finds**: a handle with the hash. In the pool only locks change. -/
theorem getHandle_spec (pool : List DbHandle) (thread : Nat) (dbStr : Text) :
    (getHandle pool thread dbStr = (pool, none) ∧
      ∀ dbh ∈ pool, dbh.fits thread dbStr = false) ∨
    ∃ r ∈ pool, r.hash = ciHash dbStr ∧ ∃ locks : DbHandle → DbHandle,
      (∀ dbh, ∃ mutex, locks dbh = { dbh with mutex := mutex }) ∧
      getHandle pool thread dbStr = (pool.map locks, some r) := by
  unfold getHandle
  cases bound : (pool.filter (·.bound thread dbStr)).getLast? with
  | some r =>
    have member := mem_of_getLast? bound
    rw [mem_filter] at member
    refine .inr ⟨r, member.1, bound_hash member.2, _, fun dbh => ?_, rfl⟩
    split
    · exact ⟨_, rfl⟩
    · exact ⟨dbh.mutex, rfl⟩
  | none =>
    cases fits : pool.find? (·.fits thread dbStr) with
    | some r =>
      have found : r.fits thread dbStr = true := by simpa using find?_some fits
      refine .inr ⟨r, mem_of_find?_eq_some fits, fits_hash found, _, fun dbh => ?_, rfl⟩
      split
      · exact ⟨_, rfl⟩
      · exact ⟨dbh.mutex, rfl⟩
    | none => exact .inl ⟨rfl, by simpa using find?_eq_none.mp fits⟩

theorem DbWorld.Faithful.others (faithful : w.Faithful requests) (thread : Nat) :
    ∀ call ∈ w.others thread, call.request ∈ requests := fun call member =>
  faithful.callsOf call (mem_of_mem_filter member)

theorem DbWorld.Faithful.inPhase (faithful : w.Faithful requests) {phase : DbPhase} {call : DbCall}
    (found : w.inPhase thread phase = some call) : call.request ∈ requests :=
  faithful.callsOf call (mem_of_find?_eq_some found)

theorem call_cases (w : DbWorld) (thread : Nat) (request : DbRequest) :
    w.call thread request = w ∨
      w.call thread request = { w with calls := ⟨thread, request, .tested⟩ :: w.calls } := by
  unfold DbWorld.call
  split
  · exact .inl rfl
  · exact .inr rfl

/-- **What the search of a call does**: nothing, without a call; it opens a handle; or it returns
one of the pool, with its hash. -/
theorem get_cases (w : DbWorld) (thread now : Nat) :
    w.get thread now = w ∨
    (∃ call, w.inPhase thread .tested = some call ∧
      w.get thread now = { w with calls := ⟨thread, call.request, .opening⟩ :: w.others thread }) ∨
    ∃ call dbStr r, w.inPhase thread .tested = some call ∧ call.request.dbStr = some dbStr ∧
      r ∈ w.pool ∧ r.hash = ciHash dbStr ∧ ∃ locks : DbHandle → DbHandle,
        (∀ dbh, ∃ mutex, locks dbh = { dbh with mutex := mutex }) ∧
        w.get thread now =
          { w with
            pool := (w.pool.map locks).map fun dbh =>
              if dbh.addr = r.addr then dbh.use thread dbStr now else dbh
            totalUsedHandles := add 32 w.totalUsedHandles 1
            calls := w.others thread
            answers := (call.request, r) :: w.answers } := by
  unfold DbWorld.get
  cases found : w.inPhase thread .tested with
  | none => exact .inl rfl
  | some call =>
    dsimp only
    cases isStr : call.request.dbStr with
    | none => exact .inl rfl
    | some dbStr =>
      dsimp only
      rcases getHandle_spec w.pool thread dbStr with ⟨nothing, -⟩ | ⟨r, member, hash, locks, only, same⟩
      · rw [nothing]
        exact .inr (.inl ⟨call, rfl, rfl⟩)
      · rw [same]
        exact .inr (.inr ⟨call, dbStr, r, rfl, isStr, member, hash, locks, only, rfl⟩)

/-- **What the end of a call does**: nothing; the call fails; or there is a new handle. -/
theorem connect_cases (w : DbWorld) (thread : Nat) (connected : Bool) (now : Nat) :
    w.connect thread connected now = w ∨
    w.connect thread connected now = { w with calls := w.others thread } ∨
    ∃ call options dbStr, connected = true ∧ w.inPhase thread .opening = some call ∧
      call.request.asked = some options ∧ call.request.dbStr = some dbStr ∧
      w.connect thread connected now =
        { w with
          pool := w.handle thread options dbStr now :: w.pool
          totalHandles := add 32 w.totalHandles 1
          totalUsedHandles := add 32 w.totalUsedHandles 1
          nextAddr := w.nextAddr + 1
          calls := w.others thread
          answers := (call.request, w.handle thread options dbStr now) :: w.answers } := by
  unfold DbWorld.connect
  cases found : w.inPhase thread .opening with
  | none => exact .inl rfl
  | some call =>
    dsimp only
    split
    next options dbStr isOptions isStr =>
      exact .inr (.inr ⟨call, options, dbStr, rfl, rfl, isOptions, isStr, rfl⟩)
    next => exact .inr (.inl rfl)

theorem faithful_call (faithful : w.Faithful requests) (thread : Nat) {request : DbRequest}
    (asked : request ∈ requests) : (w.call thread request).Faithful requests := by
  rcases call_cases w thread request with same | same
  · rwa [same]
  · rw [same]
    exact { faithful with callsOf := forall_mem_cons.mpr ⟨asked, faithful.callsOf⟩ }

theorem faithful_get (faithful : w.Faithful requests) (thread now : Nat) :
    (w.get thread now).Faithful requests := by
  rcases get_cases w thread now with same | ⟨call, found, same⟩ |
    ⟨call, dbStr, r, found, isStr, member, hash, locks, only, same⟩
  · rwa [same]
  · rw [same]
    exact { faithful with callsOf := forall_mem_cons.mpr ⟨(faithful.inPhase found :),
      faithful.others thread⟩ }
  · rw [same]
    refine faithful.of_map (map_map ..) rfl (faithful.others thread) fun dbh inPool => ?_
    obtain ⟨mutex, locked⟩ := only dbh
    rw [Function.comp_apply, locked]
    by_cases here : dbh.addr = r.addr
    · obtain rfl := faithful.eq_of_addr inPool member here
      rw [if_pos rfl]
      exact ⟨rfl, rfl, rfl, hash.symm⟩
    · rw [if_neg here]
      exact ⟨rfl, rfl, rfl, rfl⟩

theorem faithful_connect (faithful : w.Faithful requests) (thread : Nat) (connected : Bool)
    (now : Nat) : (w.connect thread connected now).Faithful requests := by
  rcases connect_cases w thread connected now with same | same |
    ⟨call, options, dbStr, -, found, isOptions, isStr, same⟩
  · rwa [same]
  · rw [same]
    exact { faithful with callsOf := faithful.others thread }
  · rw [same]
    refine ⟨?_, ?_, ?_, faithful.others thread⟩
    · refine nodup_cons.mpr ⟨fun member => ?_, faithful.distinct⟩
      obtain ⟨dbh, inPool, same⟩ := mem_map.mp member
      exact absurd same (faithful.allocated dbh inPool).ne
    · refine forall_mem_cons.mpr ⟨Nat.lt_succ_self _, fun dbh member => ?_⟩
      exact Nat.lt_succ_of_lt (faithful.allocated dbh member)
    · refine forall_mem_cons.mpr ⟨⟨call.request, faithful.inPhase found, ?_⟩,
        faithful.forRequest⟩
      refine ⟨asked_type isOptions, isOptions, ?_⟩
      rw [isStr]
      rfl

theorem release_same (dbh : DbHandle) (thread now : Nat) :
    (dbh.release thread now).addr = dbh.addr ∧ (dbh.release thread now).type = dbh.type ∧
      (dbh.release thread now).opened = dbh.opened ∧ (dbh.release thread now).hash = dbh.hash := by
  have unlocked (dbh : DbHandle) : (dbh.unlock thread).addr = dbh.addr ∧
      (dbh.unlock thread).type = dbh.type ∧ (dbh.unlock thread).opened = dbh.opened ∧
      (dbh.unlock thread).hash = dbh.hash := by
    unfold unlock
    split
    · exact ⟨rfl, rfl, rfl, rfl⟩
    · split <;> exact ⟨rfl, rfl, rfl, rfl⟩
  unfold release
  obtain ⟨addr, type, opened, hash⟩ := unlocked (if dbh.useCount = 0 then { dbh with lastUsed := now }
    else { dbh with
      lastUsed := now
      useCount := dbh.useCount - 1
      threadHash := if dbh.useCount - 1 = 0 then 1 else dbh.threadHash })
  rw [addr, type, opened, hash]
  split <;> exact ⟨rfl, rfl, rfl, rfl⟩

theorem faithful_release (faithful : w.Faithful requests) (thread addr now : Nat) :
    (w.release thread addr now).Faithful requests := by
  unfold DbWorld.release
  split
  · refine faithful.of_map rfl rfl faithful.callsOf fun dbh _ => ?_
    split
    · exact release_same dbh thread now
    · exact ⟨rfl, rfl, rfl, rfl⟩
  · exact faithful

theorem faithful_start (maxDbHandles : Nat) : (DbWorld.start maxDbHandles).Faithful requests := by
  refine ⟨nodup_nil, ?_, ?_, ?_⟩ <;> exact fun _ member => by cases member

theorem faithful_step (w : DbWorld) (op : DbOp) (faithful : w.Faithful requests)
    (made : op.Over requests) : (w.step op).Faithful requests := by
  cases op with
  | call thread request => exact faithful_call faithful thread made
  | get thread now => exact faithful_get faithful thread now
  | connect thread connected now => exact faithful_connect faithful thread connected now
  | release thread addr now => exact faithful_release faithful thread addr now
  | close thread prune =>
    refine ⟨faithful.distinct.sublist (filter_sublist.map _), fun dbh member => ?_,
      fun dbh member => ?_, faithful.callsOf⟩
    · exact faithful.allocated dbh (mem_of_mem_filter member)
    · exact faithful.forRequest dbh (mem_of_mem_filter member)

end Faithful

/-! ### Which handles are right -/

section Right

variable {requests : Set DbRequest} {w : DbWorld}

def DbWorld.Right (w : DbWorld) : Prop :=
  ∀ answer ∈ w.answers, answer.2.type = answer.1.type ∧ answer.1.asked = some answer.2.opened

def HashesTellApart (requests : Set DbRequest) : Prop :=
  ∀ request ∈ requests, ∀ other ∈ requests, ∀ dbStr dbStr', request.dbStr = some dbStr →
    other.dbStr = some dbStr' → ciHash dbStr = ciHash dbStr' → request.asked = other.asked

theorem right_step (separate : HashesTellApart requests) (w : DbWorld) (op : DbOp)
    (fine : w.Faithful requests ∧ w.Right) (made : op.Over requests) :
    (w.step op).Faithful requests ∧ (w.step op).Right := by
  obtain ⟨faithful, right⟩ := fine
  refine ⟨faithful_step w op faithful made, ?_⟩
  cases op with
  | call thread request =>
    show (w.call thread request).Right
    rcases call_cases w thread request with same | same <;> rwa [same]
  | get thread now =>
    show (w.get thread now).Right
    rcases get_cases w thread now with same | ⟨call, -, same⟩ |
      ⟨call, dbStr, r, found, isStr, member, hash, _, -, same⟩
    · rwa [same]
    · rwa [same]
    · rw [same]
      refine forall_mem_cons.mpr ⟨?_, right⟩
      -- the handle was opened for a request with the same hash
      obtain ⟨other, isRequest, type, asked, hash'⟩ := faithful.forRequest r member
      rw [Option.map_eq_some_iff] at hash'
      obtain ⟨dbStr', isStr', sameHash⟩ := hash'
      have equal := separate call.request (faithful.inPhase found) other isRequest dbStr dbStr'
        isStr isStr' (hash.symm.trans sameHash.symm)
      rw [asked] at equal
      exact ⟨type.trans ((asked_type asked).symm.trans (asked_type equal)), equal⟩
  | connect thread connected now =>
    show (w.connect thread connected now).Right
    rcases connect_cases w thread connected now with same | same |
      ⟨call, options, dbStr, -, -, isOptions, -, same⟩
    · rwa [same]
    · rwa [same]
    · rw [same]
      exact forall_mem_cons.mpr ⟨⟨asked_type isOptions, isOptions⟩, right⟩
  | release thread addr now =>
    show (w.release thread addr now).Right
    unfold DbWorld.release
    split <;> exact right
  | close thread prune => exact right

def oneAfterAnother (request other : DbRequest) : List DbOp :=
  [.call 0 request, .get 0 0, .connect 0 true 0, .release 0 0 0, .call 0 other, .get 0 0]

def idleHandle (options : DbOptions) (dbStr : Text) : DbHandle :=
  ⟨0, options.type, options, ciHash dbStr, 1, 0, false, 0, none⟩

theorem pool_after_release {request : DbRequest} {dbStr : Text} {options : DbOptions}
    (maxDbHandles : Nat) (asked : request.asked = some options)
    (isStr : request.dbStr = some dbStr) :
    ∃ answers, run DbWorld.step (.start maxDbHandles)
      [.call 0 request, .get 0 0, .connect 0 true 0, .release 0 0 0] =
        ⟨maxDbHandles, [idleHandle options dbStr], 1, 0, 1, [], answers⟩ := by
  let w : DbWorld := ⟨maxDbHandles, [], 0, 0, 0, [⟨0, request, .opening⟩], []⟩
  let dbh := w.handle 0 options dbStr 0
  have asks : (DbWorld.start maxDbHandles).call 0 request =
      { w with calls := [⟨0, request, .tested⟩] } := by
    cases maxDbHandles <;> simp [DbWorld.call, DbWorld.exhausted, DbWorld.start, isStr, w]
  have searches : ({ w with calls := [⟨0, request, .tested⟩] } : DbWorld).get 0 0 = w := by
    simp [DbWorld.get, DbWorld.inPhase, DbWorld.others, getHandle, isStr, w]
  have opens : w.connect 0 true 0 = ⟨maxDbHandles, [dbh], 1, 1, 1, [], [(request, dbh)]⟩ := by
    simp [DbWorld.connect, DbWorld.inPhase, DbWorld.others, asked, isStr, w, dbh, DbWorld.handle,
      add]
  refine ⟨[(request, dbh)], ?_⟩
  show ((((DbWorld.start maxDbHandles).call 0 request).get 0 0).connect 0 true 0).release 0 0 0 = _
  rw [asks, searches, opens]
  simp [DbWorld.release, release, unlock, sub, idleHandle, dbh, DbWorld.handle, w]

theorem oneAfterAnother_answers {request other : DbRequest} {dbStr dbStr' : Text}
    {options : DbOptions} (maxDbHandles : Nat) (asked : request.asked = some options)
    (isStr : request.dbStr = some dbStr) (isStr' : other.dbStr = some dbStr')
    (hash : ciHash dbStr = ciHash dbStr') :
    (other, idleHandle options dbStr) ∈
      (run DbWorld.step (.start maxDbHandles) (oneAfterAnother request other)).answers := by
  obtain ⟨answers, kept⟩ := pool_after_release maxDbHandles asked isStr
  have fits : (idleHandle options dbStr).fits 0 dbStr' = true := by
    simp [fits, idleHandle, hash, lockable]
  have whole : run DbWorld.step (.start maxDbHandles) (oneAfterAnother request other) =
      (DbWorld.call ⟨maxDbHandles, [idleHandle options dbStr], 1, 0, 1, [], answers⟩ 0 other).get
        0 0 := by
    rw [← kept]
    rfl
  rw [whole]
  rcases getHandle_spec [idleHandle options dbStr] 0 dbStr' with ⟨-, none⟩ | ⟨r, found, -, _, -, same⟩
  · rw [none _ mem_cons_self] at fits
    cases fits
  · obtain rfl := mem_singleton.mp found
    simp [DbWorld.call, DbWorld.get, DbWorld.inPhase, DbWorld.exhausted, isStr', same]

/-- **When handles are mixed up**: in every history over a set of requests, and whatever the limit on
the number of handles, all calls that succeed return a handle of the requested type that was opened
with the requested options, exactly when requests that ask for something else have other hashes. -/
theorem handles_right_iff (requests : Set DbRequest) (maxDbHandles : Nat) :
    (∀ ops : List DbOp, (∀ op ∈ ops, op.Over requests) →
      (run DbWorld.step (.start maxDbHandles) ops).Right) ↔ HashesTellApart requests := by
  constructor
  · intro right request isRequest other isOther dbStr dbStr' isStr isStr' hash
    obtain ⟨dsn, isDsn, -⟩ := Option.map_eq_some_iff.mp isStr
    obtain ⟨options, asked⟩ : ∃ options, request.asked = some options := by
      rw [DbRequest.asked, isDsn]
      exact ⟨_, rfl⟩
    have answered := oneAfterAnother_answers maxDbHandles asked isStr isStr' hash
    have made : ∀ op ∈ oneAfterAnother request other, op.Over requests := by
      simp [oneAfterAnother, DbOp.Over, isRequest, isOther]
    have same := (right _ made _ answered).2
    exact asked.trans same.symm
  · intro separate ops made
    exact (run_keeps (right_step separate) ⟨faithful_start _, fun _ member => by cases member⟩
      (along_of_forall (fun op member _ => made op member) _)).2

end Right

/-- **A request for PostgreSQL gets an ODBC handle.** -/
theorem odbc_for_pgsql :
    let options : DbUnion := ⟨some "x", none, none⟩
    let w := run DbWorld.step (.start 0) (oneAfterAnother ⟨.odbc, options⟩ ⟨.pgsql, options⟩)
    ∃ answer ∈ w.answers, answer.1 = ⟨.pgsql, options⟩ ∧ answer.2.type = .odbc := by
  decide

end FreeSwitch
