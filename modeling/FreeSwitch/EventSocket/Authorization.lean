/-
**The API commands of a restricted listener.**

A listener whose user was granted a list of API commands (`allowed_api_hash`) checks the first word
of a request. `api_exec` hands that word to `switch_api_execute`, so the check is enough there; but
with `console_execute` it hands the whole line to the console, which splits it at `;;` and expands
aliases, and nothing is checked again.

* `api_calls_granted_iff`: when the calls of a packet are all granted.
-/

import FreeSwitch.EventSocket.Dispatch

namespace FreeSwitch

open CString List Outcome

/-! ### The calls of a request -/

theorem Outcome.mem_calls {out : Outcome} {call : ApiCall} :
    call ∈ out.calls ↔ Effect.apiExecute call ∈ out.effects := by
  refine mem_filterMap.trans ⟨?_, fun member => ⟨_, member, rfl⟩⟩
  rintro ⟨effect, member, is⟩
  cases effect <;> cases is
  exact member

theorem apiExec_calls (env : Env) (acs : ApiCommand) :
    (apiExec env acs).filterMap Effect.call? = (apiRun env.console acs).1 := by
  have calls : ((apiRun env.console acs).1.map Effect.apiExecute).filterMap Effect.call? =
      (apiRun env.console acs).1 := by
    rw [filterMap_map]
    exact filterMap_some
  unfold apiExec
  simp only
  rw [filterMap_append, calls]
  refine append_right_eq_self.mpr ?_
  split
  · cases backgroundJob env.delivery acs _ <;> rfl
  · rfl

theorem mem_of_authApiCommand {hash : List Text} {apiCmd : Text} {arg : Option Text}
    (yes : authApiCommand hash apiCmd arg = some true) : apiCmd ∈ hash := by
  obtain ⟨walked, returned⟩ := authApiCommand_eq_some.mp yes
  obtain ⟨rfl, keys⟩ := authReturns_true returned
  refine keys apiCmd ?_
  unfold commandWords wrapperChain
  split
  all_goals exact mem_cons_self

/-! ### Lines for the console -/

/-- The packet hands `line` to the console: an `api` request with `console_execute` whose first
words pass the check. -/
structure ConsoleRequest (env : Env) (l : Listener) (hash : List Text) (packet : Option Event)
    (line : Text) : Prop where
  asked : ∃ event cmd, Named packet event cmd ∧ isCommand "api " cmd = true ∧
    line = stripCr (cmd.drop 4) ∧
    switchTrue (eventGetHeader event "console_execute") = true
  checked : authApiCommand hash (cut ' ' line).1 (cut ' ' line).2 = some true
  may : MayFull l
  running : l.running = true
  lock : env.readLock = true

section Restricted

variable {env : Env} {l : Listener} {hash : List Text} {packet : Option Event}

theorem parseCommand_consoleRequest (restricted : l.allowedApiHash = some hash) {line : Text}
    (request : ConsoleRequest env l hash packet line) :
    ∃ out, parseCommand env l packet = some out ∧
      out.calls = (consoleExecute env.console line 0 ⟨0, [], []⟩).1.calls := by
  obtain ⟨event, cmd, ⟨rfl, named⟩, is, rfl, console⟩ := request.asked
  have api : parseFull env l event cmd = parseApi env l event cmd := by
    have sendevent := isCommand_unrelated is (by decide : Unrelated "api " "sendevent")
    simp [parseFull, sendevent, is]
  have allowed : apiAllowed l (stripCr (cmd.drop 4)) = some true := by
    rw [apiAllowed, restricted]
    exact request.checked
  rw [parseCommand_eq_parseFull named is (by decide) request.may.authed request.may.full, api]
  simp only [parseApi, allowed, console, request.running, request.lock, Option.map_some,
    Bool.not_true, Bool.false_eq_true, if_false, if_true, Bool.and_self]
  exact ⟨_, rfl, apiExec_calls env _⟩

theorem apiAllowed_mem (restricted : l.allowedApiHash = some hash) {apiCmd : Text}
    (allowed : apiAllowed l apiCmd = some true) : (cut ' ' apiCmd).1 ∈ hash := by
  rw [apiAllowed, restricted] at allowed
  exact mem_of_authApiCommand allowed

theorem calls_granted_or_console (restricted : l.allowedApiHash = some hash) {out : Outcome}
    (parsed : parseCommand env l packet = some out) {call : ApiCall} (made : call ∈ out.calls) :
    call.cmd ∈ hash ∨ ∃ line, ConsoleRequest env l hash packet line ∧
      LineCall env.console.aliases line call := by
  have some_call : out.calls ≠ [] := ne_nil_of_mem made
  cases parseCommand_dispatched parsed with
  | plain same => exact absurd same.calls some_call
  | unauthed named closed answer =>
    exact absurd (congrArg (List.filterMap Effect.call?) answer.effects) some_call
  | myevents => exact absurd (parseMyevents_calls env l _) some_call
  | event cmd => exact absurd (parseEvent_calls l cmd) some_call
  | nixevent cmd => exact absurd (parseNixevent_calls l cmd) some_call
  | noevents => exact absurd (parseNoevents_calls l) some_call
  | @bgapi event cmd _ named may is answered =>
    obtain ⟨ok, allowed, rfl⟩ := Option.map_eq_some_iff.mp answered
    cases ok with
    | false => cases made
    | true =>
      refine .inl ?_
      simp only [calls, Bool.not_true, Bool.false_eq_true, if_false] at made
      split at made
      · rw [apiExec_calls] at made
        rw [mem_singleton.mp made]
        exact apiAllowed_mem restricted allowed
      · cases made
  | @api event cmd _ named may is answered =>
    obtain ⟨ok, allowed, rfl⟩ := Option.map_eq_some_iff.mp answered
    cases ok with
    | false => cases made
    | true =>
      simp only [calls, Bool.not_true, Bool.false_eq_true, if_false] at made
      split at made
      next ready =>
        obtain ⟨running, lock⟩ := Bool.and_eq_true_iff.mp ready
        rw [apiExec_calls, apiRun] at made
        split at made
        next console =>
          refine .inr ⟨_, ⟨⟨event, cmd, named, is, rfl, console⟩, ?_, may, running, lock⟩,
            mem_consoleExecute_calls.mp made⟩
          rw [apiAllowed, restricted] at allowed
          exact allowed
        next plain =>
          rw [mem_singleton.mp made]
          exact .inl (apiAllowed_mem restricted allowed)
      · cases made

/-- **The calls of a packet are granted exactly if those of its line are, in case it goes to the
console.** -/
theorem api_calls_granted_iff (restricted : l.allowedApiHash = some hash) :
    (∀ out, parseCommand env l packet = some out →
        ∀ call, Effect.apiExecute call ∈ out.effects → call.cmd ∈ hash) ↔
      ∀ line, ConsoleRequest env l hash packet line →
        ∀ call, LineCall env.console.aliases line call → call.cmd ∈ hash := by
  constructor
  · intro granted line request call listed
    obtain ⟨out, parsed, calls⟩ := parseCommand_consoleRequest restricted request
    rw [← mem_consoleExecute_calls, ← calls] at listed
    exact granted out parsed call (mem_calls.mp listed)
  · intro granted out parsed call made
    rcases calls_granted_or_console restricted parsed (mem_calls.mpr made) with
      key | ⟨line, request, listed⟩
    · exact key
    · exact granted line request call listed

end Restricted

/-- A listener whose user may only use `status`. -/
def statusListener : Listener :=
  { inboundListener with
    authed := true
    running := true
    allowedApiHash := some ["status"] }

theorem api_calls_granted_status :
    statusListener.allowedApiHash = some ["status".toList] ∧
      ∀ out, parseCommand default statusListener (some (packetOf ["api status"])) =
          some out →
        ∀ call, Effect.apiExecute call ∈ out.effects → call.cmd ∈ ["status".toList] := by
  refine ⟨rfl, (api_calls_granted_iff rfl).mpr fun line request => ?_⟩
  obtain ⟨event, cmd, ⟨given, -⟩, -, -, console⟩ := request.asked
  obtain rfl := Option.some.inj given
  exact absurd console (by decide +kernel)

/-- The console runs the second command of a line that was let through for its first. -/
theorem console_line_not_granted :
    ∃ out, parseCommand default statusListener
        (some (packetOf ["api status ;;shutdown", "console_execute: true"])) = some out ∧
      Effect.apiExecute ⟨"shutdown".toList, none⟩ ∈ out.effects ∧
      statusListener.allowedApiHash = some ["status".toList] ∧
      "shutdown".toList ∉ ["status".toList] := by
  have request : ConsoleRequest default statusListener ["status".toList]
      (some (packetOf ["api status ;;shutdown", "console_execute: true"]))
      "status ;;shutdown".toList :=
    ⟨⟨_, "api status ;;shutdown\nconsole_execute: true\n\n".toList, ⟨rfl, by decide +kernel⟩,
        by decide, by decide, by decide +kernel⟩, by decide, ⟨rfl, rfl⟩, rfl, rfl⟩
  obtain ⟨out, parsed, calls⟩ := parseCommand_consoleRequest rfl request
  refine ⟨out, parsed, mem_calls.mp ?_, rfl, by decide⟩
  rw [calls]
  decide +kernel

end FreeSwitch
