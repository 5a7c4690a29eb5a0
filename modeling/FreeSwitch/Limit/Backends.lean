/-
**Limits are given back.**

A channel counts against limits that backends keep. `switch_limit_incr` remembers a backend in the
variable `limit_backend`, a list with commas, unless its name stands somewhere in the text already;
and `limit_state_handler`, a hook on the changes of the channel's state, cuts the text into at most
six names when the channel is hung up or transferred, and has each of these backends release what the
channel has counted.

`due` are the names of the backends that have counted since the handler last released; no step of the
code reads it.

* `limits_given_back`: they are all released, if every increment is with a name that the list holds;
* `substring_not_released`: `d` behind `db` is not.
-/

import FreeSwitch.Channel.State
import FreeSwitch.Event.StoreLoad
import FreeSwitch.Expand.Scan
import FreeSwitch.Utils.SeparateRoundTrip

namespace FreeSwitch

open CString List Run

/-! ### Variables of a channel -/

/-- `LIMIT_BACKEND_VARIABLE`. -/
def limitBackend : Text := "limit_backend"

/-- `switch_channel_set_variable`: an empty value deletes, and one that refers to a variable is
refused. -/
def channelSetVariable (vars : Event) (name : Text) (value : Option Text) : Event :=
  match value with
  | none | some [] => eventDelHeader vars name
  | some value =>
    if stringVarCheckConst false value then vars
    else eventAddHeaderString vars Stack.bottom name (some value)

/-- `switch_channel_set_variable_printf`, which deletes the variable first. -/
def channelSetVariablePrintf (vars : Event) (name value : Text) : Event :=
  channelSetVariable (eventDelHeader vars name) name (some value)

/-- A channel: its variables, what `switch_channel_get_variable` finds for `limit_backend` before
them (in `scope_variables`) and behind (in the caller profile or the global variables), and whether
`limit_state_handler` is a state change hook. -/
structure LimitChannel where
  vars : Event
  scope : Option Text
  elsewhere : Option Text
  hooked : Bool
  due : List Text

/-- `switch_channel_get_variable(channel, LIMIT_BACKEND_VARIABLE)`. -/
def LimitChannel.backendlist (channel : LimitChannel) : Option Text :=
  (channel.scope.or (eventGetHeader channel.vars limitBackend)).or channel.elsewhere

/-! ### The code -/

open LimitChannel

variable (channel : LimitChannel)

/-- `switch_limit_incr` after an increment: the backend is put into the list, and the hook added. -/
def LimitChannel.listBackend (backend : Text) : LimitChannel :=
  match channel.backendlist with
  | some existing =>
    if (strstr backend existing).isSome then channel
    else { channel with
      vars := channelSetVariablePrintf channel.vars limitBackend (existing ++ ',' :: backend) }
  | none => { channel with
      vars := channelSetVariable channel.vars limitBackend (some backend)
      hooked := true }

local instance text_lawful : LawfulBEq Text := inferInstance

/-- `switch_limit_incr`; nothing stays unless the backend is there and the increment succeeds. -/
def limitIncr (backend : Text) (success : Bool) : LimitChannel :=
  if !success then channel
  else
    ({ channel with
      due := if backend ∈ channel.due then channel.due else channel.due ++ [backend] } :
        LimitChannel).listBackend backend

/-- `limit_state_handler`: the names with which it calls `switch_limit_release`, or `none` where the
text is overrun. -/
def limitStateHandler (state : ChannelState) (ignoreTransfer : Bool) :
    LimitChannel × Option (List Text) :=
  match channel.backendlist with
  | none | some [] => (channel, some [])
  | some backendlist =>
    if .hangup ≤ state ∨ (state = .routing ∧ ignoreTransfer = false) then
      ({ channel with
        hooked := false
        vars := channelSetVariable channel.vars limitBackend none
        due := [] }, separateString backendlist ',' 6)
    else (channel, some [])

def LimitChannel.stateChange (state : ChannelState) (ignoreTransfer : Bool) :
    LimitChannel × Option (List Text) :=
  if channel.hooked then limitStateHandler channel state ignoreTransfer else (channel, some [])

inductive LimitOp
  | incr (backend : Text) (success : Bool)
  | state (state : ChannelState) (ignoreTransfer : Bool)

def LimitChannel.step (channel : LimitChannel) : LimitOp → LimitChannel
  | .incr backend success => limitIncr channel backend success
  | .state state ignoreTransfer => (channel.stateChange state ignoreTransfer).1

/-! ### Names that come back -/

/-- A name without commas, quotation marks and backslashes, and without blanks around it. -/
structure PlainName (name : Text) : Prop where
  filled : name ≠ []
  unmarked : ∀ c ∈ name, c ≠ ',' ∧ c ≠ '\'' ∧ c ≠ '\\'
  first : ∀ c ∈ name.head?, c ≠ ' '
  last : ∀ c ∈ name.getLast?, c ≠ ' '

def listed (names : List Text) : Text := [','].intercalate names

section Names

variable {name : Text} {names : List Text}

theorem PlainName.passed (plain : PlainName name) : Passed ',' name := by
  have all : ∀ c ∈ name, c ≠ ',' ∧ c ≠ '\'' ∧ c ≠ '\\' := plain.unmarked
  clear plain
  induction name with
  | nil => exact passed_nil
  | cons c name ih =>
    obtain ⟨comma, mark, slash⟩ := all c mem_cons_self
    exact (ih fun d member => all d (mem_cons_of_mem _ member)).cons slash mark comma

theorem cleanupFrom_unmarked {s : Text} (unmarked : ∀ c ∈ s, c ≠ '\'' ∧ c ≠ '\\') (filled : s ≠ [])
    (last : ∀ c ∈ s.getLast?, c ≠ ' ') (dest : Text) (stop : Nat) :
    cleanupFrom (some ',') s false dest stop = dest ++ s := by
  induction s generalizing dest stop with
  | nil => exact absurd rfl filled
  | cons c s ih =>
    obtain ⟨mark, slash⟩ := unmarked c mem_cons_self
    rw [cleanupFrom, if_neg (mark ·.1)]
    · cases s with
      | nil =>
        rw [cleanupFrom, if_pos (.inl (last c rfl)), take_of_length_le (by simp)]
      | cons d s =>
        rw [ih (fun e member => unmarked e (mem_cons_of_mem _ member)) (cons_ne_nil _ _)
          (by rwa [getLast?_cons_cons] at last), append_assoc]
        rfl
    · exact fun _ _ same _ => slash same

theorem PlainName.cleanup (plain : PlainName name) :
    cleanupSeparatedString (some ',') name = name := by
  have start : skipSpaces name = name := by
    obtain ⟨c, rest, rfl⟩ := exists_cons_of_ne_nil plain.filled
    exact dropWhile_cons_of_neg (by simpa using plain.first c rfl)
  rw [cleanupSeparatedString, start]
  exact cleanupFrom_unmarked (fun c member => (plain.unmarked c member).2) plain.filled plain.last
    [] 0

theorem listed_plain (plain : ∀ name ∈ names, PlainName name)
    (head : ∀ name ∈ names.head?, ¬ ['^', '^'] <+: name) (own c : Char) (rest : Text) :
    listed names ≠ '^' :: '^' :: own :: c :: rest := by
  intro begins
  match names with
  | [] => cases begins
  | [name] =>
    rw [listed, intercalate_singleton] at begins
    exact head name rfl ⟨own :: c :: rest, begins.symm⟩
  | [] :: next :: names => exact (plain [] mem_cons_self).filled rfl
  | [a] :: next :: names =>
    rw [listed, intercalate_cons_cons] at begins
    simp at begins
  | (a :: b :: name) :: next :: names =>
    rw [listed, intercalate_cons_cons] at begins
    simp only [cons_append, append_assoc, List.cons.injEq] at begins
    obtain ⟨rfl, rfl, -⟩ := begins
    exact head _ rfl ⟨name, rfl⟩

theorem separateString_names (plain : ∀ name ∈ names, PlainName name)
    (head : ∀ name ∈ names.head?, ¬ ['^', '^'] <+: name) {room : Nat} (fits : names.length ≤ room) :
    separateString (listed names) ',' room = some names := by
  have last : ∀ name ∈ names.getLast?, name ≠ [] := fun name isLast =>
    (plain name (mem_of_getLast? isLast)).filled
  rw [separateString_plain (listed_plain plain head), separateAt, if_neg (by decide), listed,
    charPieces_intercalate (by decide) (by decide) (fun name member => (plain name member).passed)
      fits last, Option.map_some]
  congr 1
  refine (map_congr_left fun name member => ?_).trans (map_id names)
  exact (plain name member).cleanup

theorem listed_ne_nil (plain : ∀ name ∈ names, PlainName name) (some : names ≠ []) :
    listed names ≠ [] := by
  match names with
  | [] => exact absurd rfl some
  | [name] =>
    rw [listed, intercalate_singleton]
    exact (plain name mem_cons_self).filled
  | name :: next :: names =>
    rw [listed, intercalate_cons_cons]
    simp

theorem listed_concat (some : names ≠ []) (name : Text) :
    listed (names ++ [name]) = listed names ++ ',' :: name := by
  induction names with
  | nil => exact absurd rfl some
  | cons first names ih =>
    cases names with
    | nil => simp [listed, intercalate_cons_cons]
    | cons next names =>
      have more := ih (cons_ne_nil _ _)
      rw [listed] at more
      rw [listed, listed, cons_append, cons_append, intercalate_cons_cons,
        intercalate_cons_cons, ← cons_append, more]
      simp [listed]

theorem infix_listed (member : name ∈ names) : name <:+: listed names := by
  induction names with
  | nil => cases member
  | cons first names ih =>
    cases names with
    | nil =>
      obtain rfl := mem_singleton.mp member
      rw [listed, intercalate_singleton]
    | cons next names =>
      rw [listed, intercalate_cons_cons]
      rcases mem_cons.mp member with rfl | behind
      · exact ((prefix_append _ _).trans (prefix_append _ _)).isInfix
      · exact (ih behind).trans (suffix_append _ _).isInfix

end Names

/-! ### What every step keeps -/

def Storable (list : Text) : Prop := stringVarCheckConst false list = false ∧ ¬ arrayTag <:+: list

/-- **The condition on an increment that succeeds**: the name is listed, or it is a plain name that
is no part of the text, there is room among the six, and the longer list can be stored. A first name
does not begin with `^^`. -/
def LimitChannel.Listable (channel : LimitChannel) : LimitOp → Prop
  | .incr backend true => backend ∈ channel.due ∨
      PlainName backend ∧ (channel.due = [] → ¬ ['^', '^'] <+: backend) ∧
        ¬ backend <:+: listed channel.due ∧ channel.due.length < 6 ∧
        Storable (listed (channel.due ++ [backend]))
  | _ => True

/-- **The invariant**: the variable lists the names that are due, and the hook is there if any is.
-/
structure LimitChannel.Tracked (channel : LimitChannel) : Prop where
  flags : Flagged channel.vars
  alone : channel.scope = none ∧ channel.elsewhere = none
  plain : ∀ name ∈ channel.due, PlainName name
  head : ∀ name ∈ channel.due.head?, ¬ ['^', '^'] <+: name
  few : channel.due.length ≤ 6
  list : eventGetHeader channel.vars limitBackend =
    if channel.due = [] then none else some (listed channel.due)
  hooked : channel.due ≠ [] → channel.hooked = true

section Steps

variable {channel : LimitChannel}

theorem LimitChannel.Tracked.backendlist_eq (tracked : channel.Tracked) :
    channel.backendlist = if channel.due = [] then none else some (listed channel.due) := by
  rw [backendlist, tracked.alone.1, tracked.alone.2, Option.none_or, Option.or_none,
    tracked.list]

theorem limitBackend_plain : '[' ∉ limitBackend := by decide

theorem deleted_variable {vars : Event} (flags : Flagged vars) :
    Flagged (eventDelHeader vars limitBackend) ∧
      eventGetHeader (eventDelHeader vars limitBackend) limitBackend = none := by
  refine ⟨⟨eventDelHeaderVal_wellFormed flags.wf limitBackend none, flags.uniq⟩, ?_⟩
  rw [eventGetHeader, eventGetHeaderIdx, eventGetHeaderPtr_delete]
  rfl

theorem stored_variable {vars : Event} (flags : Flagged vars) {list : Text} (filled : list ≠ [])
    (storable : Storable list) :
    Flagged (channelSetVariable vars limitBackend (some list)) ∧
      eventGetHeader (channelSetVariable vars limitBackend (some list)) limitBackend = some list := by
  obtain ⟨c, rest, rfl⟩ := exists_cons_of_ne_nil filled
  have set : channelSetVariable vars limitBackend (some (c :: rest)) =
      eventAddHeaderString vars Stack.bottom limitBackend (some (c :: rest)) := by
    rw [channelSetVariable, storable.1]
    · rfl
    · exact cons_ne_nil _ _
  rw [set]
  have inside : ¬ arrayTag <+: c :: rest := fun begins => storable.2 begins.isInfix
  exact ⟨applyAddition_flagged flags ⟨Stack.bottom, limitBackend, some (c :: rest)⟩,
    (stored_read_back flags limitBackend_plain filled inside).mpr storable.2⟩

variable {backend : Text}

theorem incr_listed (tracked : channel.Tracked) (member : backend ∈ channel.due) :
    limitIncr channel backend true = channel := by
  have found : (strstr backend (listed channel.due)).isSome = true :=
    (strstr_isSome _ _).mpr (infix_listed member)
  have same : limitIncr channel backend true = channel.listBackend backend := by
    simp only [limitIncr, if_pos member]
    rfl
  rw [same, listBackend, tracked.backendlist_eq, if_neg (ne_nil_of_mem member)]
  exact if_pos found

theorem incr_new (tracked : channel.Tracked) (apart : ¬ backend <:+: listed channel.due) :
    limitIncr channel backend true =
      if channel.due = [] then
        { channel with
          vars := channelSetVariable channel.vars limitBackend (some backend)
          hooked := true
          due := channel.due ++ [backend] }
      else
        { channel with
          vars := channelSetVariablePrintf channel.vars limitBackend
            (listed channel.due ++ ',' :: backend)
          due := channel.due ++ [backend] } := by
  have new : backend ∉ channel.due := fun member => apart (infix_listed member)
  have missing : ¬ (strstr backend (listed channel.due)).isSome = true :=
    mt (strstr_isSome _ _).mp apart
  have same : limitIncr channel backend true =
      ({ channel with due := channel.due ++ [backend] } : LimitChannel).listBackend backend := by
    simp only [limitIncr, if_neg new]
    rfl
  have list : backendlist { channel with due := channel.due ++ [backend] } =
      if channel.due = [] then none else some (listed channel.due) := tracked.backendlist_eq
  rw [same, listBackend, list]
  by_cases empty : channel.due = []
  · rw [if_pos empty, if_pos empty]
  · rw [if_neg empty, if_neg empty]
    exact if_neg missing

theorem tracked_incr (tracked : channel.Tracked) {success : Bool}
    (listable : channel.Listable (.incr backend success)) :
    (limitIncr channel backend success).Tracked := by
  cases success with
  | false => exact tracked
  | true =>
    rcases listable with member | ⟨plain, head, apart, room, storable⟩
    · rw [incr_listed tracked member]
      exact tracked
    · have all : ∀ name ∈ channel.due ++ [backend], PlainName name := by
        simpa [or_imp, forall_and] using ⟨tracked.plain, plain⟩
      rw [incr_new tracked apart]
      split
      next empty =>
        rw [empty, nil_append, listed, intercalate_singleton] at storable
        obtain ⟨flags, stored⟩ := stored_variable tracked.flags plain.filled storable
        refine ⟨flags, tracked.alone, all, ?_, ?_, ?_, fun _ => rfl⟩ <;> dsimp only
        · simpa [empty] using head empty
        · simp [empty]
        · rw [stored, empty, if_neg (by simp), nil_append, listed, intercalate_singleton]
      next some =>
        rw [listed_concat some] at storable
        obtain ⟨flags, stored⟩ := stored_variable (deleted_variable tracked.flags).1
          (by simp) storable
        refine ⟨flags, tracked.alone, all, ?_, ?_, ?_, fun _ => tracked.hooked some⟩
        · rw [head?_append_of_ne_nil _ some]
          exact tracked.head
        · simpa using room
        · rw [if_neg (by simp)]
          show _ = Option.some (listed (channel.due ++ [backend]))
          rw [listed_concat some]
          exact stored

theorem stateChange_hangup (tracked : channel.Tracked) {state : ChannelState}
    (hangs : .hangup ≤ state) (ignoreTransfer : Bool) :
    (channel.stateChange state ignoreTransfer).2 = some channel.due := by
  unfold stateChange limitStateHandler
  rw [tracked.backendlist_eq]
  by_cases empty : channel.due = []
  · rw [if_pos empty, empty]
    split <;> rfl
  · obtain ⟨c, rest, isList⟩ := exists_cons_of_ne_nil (listed_ne_nil tracked.plain empty)
    have back := separateString_names tracked.plain tracked.head tracked.few
    rw [isList] at back
    rw [if_neg empty, tracked.hooked empty, if_pos rfl, isList]
    dsimp only
    rw [if_pos (.inl hangs)]
    exact back

theorem tracked_state (tracked : channel.Tracked) (state : ChannelState) (ignoreTransfer : Bool) :
    (channel.stateChange state ignoreTransfer).1.Tracked := by
  unfold stateChange
  split
  · unfold limitStateHandler
    split
    · exact tracked
    · exact tracked
    next list _ _ =>
      split
      · obtain ⟨flags, gone⟩ := deleted_variable tracked.flags
        exact ⟨flags, tracked.alone, nofun, nofun, Nat.zero_le _, gone, fun some => absurd rfl some⟩
      · exact tracked
  · exact tracked

theorem tracked_step (channel : LimitChannel) (op : LimitOp) (tracked : channel.Tracked)
    (listable : channel.Listable op) : (channel.step op).Tracked := by
  cases op with
  | incr backend success => exact tracked_incr tracked listable
  | state state ignoreTransfer => exact tracked_state tracked state ignoreTransfer

end Steps

/-! ### Every run -/

def LimitChannel.start (vars : Event) : LimitChannel := ⟨vars, none, none, false, []⟩

/-- **Every limit is given back**: after every run of increments and changes of the state in which all
increments that succeed are with names that the list holds, the next change of the state to hangup, or
to a later one, releases every backend with which an increment has succeeded since the handler last
released. -/
theorem limits_given_back {vars : Event} (flags : Flagged vars)
    (unset : eventGetHeader vars limitBackend = none) {ops : List LimitOp}
    (listable : Along step Listable (.start vars) ops)
    {state : ChannelState} (hangs : .hangup ≤ state) (ignoreTransfer : Bool) :
    let channel := run step (.start vars) ops
    ∃ released, (channel.stateChange state ignoreTransfer).2 = some released ∧
      ∀ backend ∈ channel.due, backend ∈ released := by
  intro channel
  have start : (start vars).Tracked :=
    ⟨flags, ⟨rfl, rfl⟩, nofun, nofun, Nat.zero_le _, unset, fun some => absurd rfl some⟩
  have tracked : channel.Tracked := run_keeps tracked_step start listable
  exact ⟨channel.due, stateChange_hangup tracked hangs ignoreTransfer, fun _ member => member⟩

/-- The instance of the backends `db` and `hash`. -/
theorem limits_given_back_two :
    let channel := run step (.start (eventCreatePlain .channelData))
      [.incr ['d', 'b'] true, .incr ['h', 'a', 's', 'h'] true]
    channel.due = [['d', 'b'], ['h', 'a', 's', 'h']] ∧
      ∃ released, (channel.stateChange .hangup false).2 = some released ∧
        ∀ backend ∈ channel.due, backend ∈ released := by
  have flags : Flagged (eventCreatePlain .channelData) :=
    (UniqStart.set _ (.createPlain .channelData)).flagged
  have db : PlainName ['d', 'b'] := ⟨by simp, by simp, by simp, by simp⟩
  have hash : PlainName ['h', 'a', 's', 'h'] := ⟨by simp, by simp, by simp, by simp⟩
  have listable : Along step Listable
      (.start (eventCreatePlain .channelData))
      [.incr ['d', 'b'] true, .incr ['h', 'a', 's', 'h'] true] := by
    refine ⟨.inr ⟨db, fun _ => by decide, by decide, by decide, by decide, by decide⟩,
      .inr ⟨hash, fun _ => by decide, ?_, ?_, ?_⟩, trivial⟩
    · decide +kernel
    · decide +kernel
    · exact ⟨by decide +kernel, by decide +kernel⟩
  exact ⟨by decide +kernel, limits_given_back flags (by decide) listable (by decide) false⟩

/-- **A name that is a part of another one is not released.** -/
theorem substring_not_released :
    let channel := run step (.start (eventCreatePlain .channelData))
      [.incr "db".toList true, .incr "d".toList true]
    channel.due = ["db".toList, "d".toList] ∧
      (channel.stateChange .hangup false).2 = some ["db".toList] := by
  decide +kernel

end FreeSwitch
