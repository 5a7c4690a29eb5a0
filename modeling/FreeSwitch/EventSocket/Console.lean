/-
**Executing a console line.**

`switch_console_execute` splits its text at `;;`, expands aliases, executing the expansion in the
same way, and hands every other piece to `switch_api_execute`. Neither the status nor the output of
a command has any part in this, so what is handed over depends on the text and on the alias table
alone: `Means` gives a line its meaning, and the console does what the line means
(`consoleExecute_means`).
-/

import FreeSwitch.Lib.CString

namespace FreeSwitch

open CString List

/-- One call of `switch_api_execute`. -/
structure ApiCall where
  cmd : Text
  arg : Option Text
  deriving DecidableEq

/-- The alias table, by its answer to the `n`-th lookup, as it may change at any time, and the API
commands, whose results may depend on those before. -/
structure ConsoleWorld where
  aliases : Nat → Text → Option Text
  api : List ApiCall → Bool × Text

/-- `strip_cr`: cut the text at its first `\r`, or else at its first `\n`. -/
def stripCr (s : Text) : Text := if '\r' ∈ s then (cut '\r' s).1 else (cut '\n' s).1

/-- `switch_console_expand_alias`, where it finds an alias: for the command, to which the argument
is appended, or else for the whole line, where a missing argument is printed as `(NULL)`. The second
lookup comes right after the first. -/
def consoleExpandAlias (aliases : Nat → Text → Option Text) (n : Nat) (cmd : Text)
    (arg : Option Text) : Option Text :=
  match aliases n cmd with
  | some r => some (arg.elim r fun arg => r ++ ' ' :: arg)
  | none => aliases (n + 1) (cmd ++ ' ' :: arg.getD "(NULL)")

/-- A line that starts with `alias` is one piece; otherwise there are at most 128, split at `;;`. -/
def consolePieces (xcmd : Text) : List Text :=
  if ciHasPrefix "alias" xcmd then [xcmd] else separateStr ';' [';'] 128 xcmd

def pieceCall (piece : Text) : ApiCall :=
  ⟨(cut ' ' (stripCr piece)).1, (cut ' ' (stripCr piece)).2⟩

structure ConsoleState where
  lookups : Nat
  calls : List ApiCall
  stream : Text

def expandMessage (cmd expansion : Text) : Text :=
  "\nExpand Alias [" ++ cmd ++ "]->[" ++ expansion ++ "]\n\n"

/-- The loop over the pieces, with the recursive call `execute`. `depth` grows with every expansion
of the loop, not only with the nesting. -/
def consoleLoop (world : ConsoleWorld)
    (execute : Nat → Text → ConsoleState → ConsoleState × Bool) :
    Nat → List Text → ConsoleState → Bool → ConsoleState × Bool
  | _, [], st, status => (st, status)
  | depth, piece :: pieces, st, _ =>
    let call := pieceCall piece
    match consoleExpandAlias world.aliases st.lookups call.cmd call.arg with
    | some expansion =>
      let done := execute (depth + 1) expansion
        { st with
          lookups := st.lookups + 2
          stream := st.stream ++ expandMessage call.cmd expansion }
      consoleLoop world execute (depth + 1) pieces done.1 done.2
    | none =>
      let calls := st.calls ++ [call]
      consoleLoop world execute depth pieces
        ⟨st.lookups + 2, calls, st.stream ++ (world.api calls).2⟩ (world.api calls).1

/-- `switch_console_execute`. The test before the recursive call always succeeds: `depth` only
grows. -/
def consoleExecute (world : ConsoleWorld) (xcmd : Text) (depth : Nat) (st : ConsoleState) :
    ConsoleState × Bool :=
  if depth > 100 then (st, false)
  else
    consoleLoop world
      (fun deeper expansion st =>
        if depth < deeper then consoleExecute world expansion deeper st else (st, false))
      depth (consolePieces xcmd) st false
termination_by 101 - depth

/-! ### The meaning of a line -/

/-- The expansion of a piece that is an alias by the `n`-th lookup. -/
def expansionOf (aliases : Nat → Text → Option Text) (n : Nat) (piece : Text) : Option Text :=
  consoleExpandAlias aliases n (pieceCall piece).cmd (pieceCall piece).arg

def piecesAt (depth : Nat) (line : Text) : List Text :=
  if depth > 100 then [] else consolePieces line

/-- **What pieces mean**, by the number of lookups and the calls before and after them: a piece that
is no alias is a call, and an alias means what its expansion means. -/
inductive Means (aliases : Nat → Text → Option Text) :
    Nat → List Text → Nat × List ApiCall → Nat × List ApiCall → Prop
  | nil {depth done} : Means aliases depth [] done done
  | call {depth piece pieces n calls after} : expansionOf aliases n piece = none →
      Means aliases depth pieces (n + 2, calls ++ [pieceCall piece]) after →
      Means aliases depth (piece :: pieces) (n, calls) after
  | expand {depth piece pieces n calls inner after expansion} :
      expansionOf aliases n piece = some expansion →
      Means aliases (depth + 1) (piecesAt (depth + 1) expansion) (n + 2, calls) inner →
      Means aliases (depth + 1) pieces inner after →
      Means aliases depth (piece :: pieces) (n, calls) after

/-- **A call of the line.** -/
def LineCall (aliases : Nat → Text → Option Text) (line : Text) (call : ApiCall) : Prop :=
  ∃ n calls, Means aliases 0 (consolePieces line) (0, []) (n, calls) ∧ call ∈ calls

theorem Means.unique {aliases : Nat → Text → Option Text} {depth : Nat} {pieces : List Text}
    {before after other : Nat × List ApiCall} (means : Means aliases depth pieces before after)
    (too : Means aliases depth pieces before other) : after = other := by
  induction means generalizing other with
  | nil =>
    cases too
    rfl
  | call plain _ ih =>
    cases too with
    | call _ rest => exact ih rest
    | expand named _ _ => exact absurd (plain.symm.trans named) nofun
  | expand named _ _ ihInner ihRest =>
    cases too with
    | call plain _ => exact absurd (plain.symm.trans named) nofun
    | expand same inner rest =>
      obtain rfl := Option.some.inj (named.symm.trans same)
      obtain rfl := ihInner inner
      exact ihRest rest

def ConsoleState.done (st : ConsoleState) : Nat × List ApiCall := (st.lookups, st.calls)

theorem consoleLoop_means (world : ConsoleWorld) {base : Nat}
    {execute : Nat → Text → ConsoleState → ConsoleState × Bool}
    (inner : ∀ depth expansion st, base < depth → Means world.aliases depth
      (piecesAt depth expansion) st.done (execute depth expansion st).1.done)
    (pieces : List Text) : ∀ depth st status, base ≤ depth → Means world.aliases depth pieces
      st.done (consoleLoop world execute depth pieces st status).1.done := by
  induction pieces with
  | nil => exact fun depth st status _ => .nil
  | cons piece pieces ih =>
    intro depth st status deep
    unfold consoleLoop
    simp only
    split
    next expansion named =>
      refine .expand named ?_ (ih _ _ _ (by omega))
      exact inner (depth + 1) expansion ⟨_, _, _⟩ (by omega)
    next plain => exact .call plain (ih depth ⟨_, _, _⟩ _ deep)

/-- **The console does what the line means.** -/
theorem consoleExecute_means (world : ConsoleWorld) (depth : Nat) : ∀ (xcmd : Text)
    (st : ConsoleState), Means world.aliases depth (piecesAt depth xcmd) st.done
      (consoleExecute world xcmd depth st).1.done := by
  -- The recursion goes deeper, up to 100.
  induction depth using (measure fun depth => 101 - depth).wf.induction with
  | _ depth ih =>
    intro xcmd st
    rw [consoleExecute, piecesAt]
    split
    · exact .nil
    · refine consoleLoop_means world (fun deeper expansion st deep => ?_) _ depth st false le_rfl
      rw [if_pos deep]
      refine ih deeper ?_ expansion st
      show 101 - deeper < 101 - depth
      omega

theorem mem_consoleExecute_calls {world : ConsoleWorld} {line : Text} {call : ApiCall} :
    call ∈ (consoleExecute world line 0 ⟨0, [], []⟩).1.calls ↔
      LineCall world.aliases line call := by
  have means := consoleExecute_means world 0 line ⟨0, [], []⟩
  constructor
  · exact fun made => ⟨_, _, means, made⟩
  · rintro ⟨n, calls, too, made⟩
    rw [show (consoleExecute world line 0 ⟨0, [], []⟩).1.calls = calls from
      congrArg Prod.snd (means.unique too)]
    exact made

end FreeSwitch
