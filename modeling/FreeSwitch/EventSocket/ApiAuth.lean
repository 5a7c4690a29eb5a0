/-
**Authorising an API command.**

`auth_api_command` looks a command up in the listener's table of allowed commands. A wrapper command
runs the command named in its argument, so while the word just looked up is a wrapper the next word
of the argument is looked up too. When a wrapper is the last word, the walk goes back to the first
word of the argument.

* `auth_api_command_returns_iff`: when the walk ends, and that it is right when it says yes.
-/

import FreeSwitch.Lib.CString
import FreeSwitch.Lib.Loop

namespace FreeSwitch

open CString List Loop Option

def sneakyCommands : List Text :=
  ["bgapi", "sched_api", "eval", "expand", "xml_wrap"]

def isSneaky (word : Text) : Bool := sneakyCommands.any fun command => ciEq command word

/-- The variables at `top`. -/
structure AuthWalk where
  /-- `check_cmd == api_cmd`. -/
  atCommand : Bool
  /-- The text at `check_cmd`. -/
  word : Text
  /-- The text at `next`. -/
  next : Option Text
  /-- The text at `dup_arg`, which ends where the first cut was made. -/
  dupArg : Text
  walked : List Text
  deriving DecidableEq

/-- One pass of `auth_api_command`: the answer with the words looked up, or the variables at the
next `top`. -/
def authApiBody (hash : List Text) (arg : Option Text) (w : AuthWalk) :
    AuthWalk ⊕ (Bool × List Text) :=
  let walked := w.walked ++ [w.word]
  if w.word ∉ hash then .inr (false, walked)
  else if isSneaky w.word then
    if w.atCommand then
      match arg with
      | some arg => .inl ⟨false, (cut ' ' arg).1, (cut ' ' arg).2, (cut ' ' arg).1, walked⟩
      | none => .inr (true, walked)
    else
      let check := w.next.getD w.dupArg
      .inl ⟨false, (cut ' ' check).1, (cut ' ' check).2, w.dupArg, walked⟩
  else .inr (true, walked)

def authStart (apiCmd : Text) : AuthWalk := ⟨true, apiCmd, none, [], []⟩

def authPasses (arg : Option Text) : Nat := 1 + (arg.elim 0 fun arg => (arg.splitOn ' ').length)

/-- `auth_api_command`, for as many passes as there are words; `none` if it has not returned by
then. -/
def authApiCommand (hash : List Text) (apiCmd : Text) (arg : Option Text) : Option Bool :=
  (runFor (authApiBody hash arg) (authPasses arg) (authStart apiCmd)).map Prod.fst

/-! ### The walk along the words -/

/-- The walk along the words: it stops at one that is not allowed, with no, or at one that is no
wrapper, with yes. -/
def walkWords (hash : List Text) (walked : List Text) : List Text → Option (Bool × List Text)
  | [] => none
  | word :: words =>
    if word ∉ hash then some (false, walked ++ [word])
    else if isSneaky word then walkWords hash (walked ++ [word]) words
    else some (true, walked ++ [word])

section Passes

variable {hash : List Text} {arg : Option Text} {w : AuthWalk}

theorem authApiBody_denied (absent : w.word ∉ hash) :
    authApiBody hash arg w = .inr (false, w.walked ++ [w.word]) := if_pos absent

theorem authApiBody_allowed (allowed : w.word ∈ hash) (plain : ¬ isSneaky w.word = true) :
    authApiBody hash arg w = .inr (true, w.walked ++ [w.word]) := by
  simp only [authApiBody, not_not.mpr allowed, if_false, if_neg plain]

theorem authApiBody_goes (inArg : w.atCommand = false) (allowed : w.word ∈ hash)
    (sneaky : isSneaky w.word = true) :
    authApiBody hash arg w =
      .inl ⟨false, (cut ' ' (w.next.getD w.dupArg)).1, (cut ' ' (w.next.getD w.dupArg)).2, w.dupArg,
        w.walked ++ [w.word]⟩ := by
  simp only [authApiBody, not_not.mpr allowed, if_false, if_pos sneaky, inArg, Bool.false_eq_true]

theorem authApiBody_enters (atCommand : w.atCommand = true) (allowed : w.word ∈ hash)
    (sneaky : isSneaky w.word = true) (text : Text) :
    authApiBody hash (some text) w =
      .inl ⟨false, (cut ' ' text).1, (cut ' ' text).2, (cut ' ' text).1, w.walked ++ [w.word]⟩ := by
  simp only [authApiBody, not_not.mpr allowed, if_false, if_pos sneaky, atCommand, if_true]

theorem authApiBody_alone (atCommand : w.atCommand = true) (allowed : w.word ∈ hash)
    (sneaky : isSneaky w.word = true) :
    authApiBody hash none w = .inr (true, w.walked ++ [w.word]) := by
  simp only [authApiBody, not_not.mpr allowed, if_false, if_pos sneaky, atCommand, if_true]

end Passes

theorem runFor_authApiBody (hash : List Text) (arg : Option Text) (dupArg : Text) :
    ∀ (words : List Text) (text : Text), text.splitOn ' ' = words → ∀ walked,
      runFor (authApiBody hash arg) words.length
        ⟨false, (cut ' ' text).1, (cut ' ' text).2, dupArg, walked⟩ = walkWords hash walked words := by
  intro words
  induction words with
  | nil => exact fun _ _ _ => rfl
  | cons word words ih =>
    intro text split walked
    rw [splitOn_eq_cut] at split
    obtain ⟨rfl, rest⟩ := List.cons.inj split
    unfold walkWords
    by_cases allowed : (cut ' ' text).1 ∈ hash
    · rw [if_neg (not_not.mpr allowed)]
      by_cases sneaky : isSneaky (cut ' ' text).1 = true
      · rw [if_pos sneaky, length_cons, runFor_goes (authApiBody_goes rfl allowed sneaky)]
        cases next : (cut ' ' text).2 with
        | none =>
          -- The last word: here the walk is over, and the code has no pass left.
          rw [next] at rest
          obtain rfl : words = [] := rest.symm
          rfl
        | some more =>
          rw [next] at rest
          exact ih more rest _
      · rw [if_neg sneaky]
        exact runFor_returns (authApiBody_allowed allowed sneaky) _
    · rw [if_pos allowed]
      exact runFor_returns (authApiBody_denied allowed) _

/-! ### What the walk along the words says -/

variable {hash : List Text} {arg : Option Text} {apiCmd : Text}

theorem walkWords_eq_none {words : List Text} : ∀ walked,
    walkWords hash walked words = none ↔ ∀ word ∈ words, word ∈ hash ∧ isSneaky word = true := by
  induction words with
  | nil => exact fun _ => iff_of_true rfl fun _ member => absurd member not_mem_nil
  | cons word words ih =>
    intro walked
    rw [forall_mem_cons]
    unfold walkWords
    split
    next absent =>
      simp [absent]
    next allowed =>
      split
      next sneaky =>
        rw [ih, and_iff_right ⟨not_not.mp allowed, sneaky⟩]
      next plain =>
        simp [plain]

def wrapperChain : List Text → List Text
  | [] => []
  | word :: words => if isSneaky word then word :: wrapperChain words else [word]

theorem walkWords_eq_true {words : List Text} : ∀ {walked chain},
    walkWords hash walked words = some (true, chain) →
      chain = walked ++ wrapperChain words ∧ ∀ word ∈ wrapperChain words, word ∈ hash := by
  induction words with
  | nil => exact fun stopped => by cases stopped
  | cons word words ih =>
    intro walked chain stopped
    unfold walkWords at stopped
    unfold wrapperChain
    split at stopped
    · cases stopped
    next allowed =>
      split at stopped
      next sneaky =>
        obtain ⟨whole, inside⟩ := ih stopped
        rw [if_pos sneaky, forall_mem_cons]
        exact ⟨by rw [whole, append_assoc]; rfl, not_not.mp allowed, inside⟩
      next plain =>
        cases stopped
        rw [if_neg plain, forall_mem_singleton]
        exact ⟨rfl, not_not.mp allowed⟩

/-! ### The whole function -/

def commandWords (apiCmd : Text) (arg : Option Text) : List Text :=
  apiCmd :: (arg.elim [] fun arg => arg.splitOn ' ')

def OnlyWrappers (hash : List Text) (apiCmd : Text) (arg : Option Text) : Prop :=
  arg.isSome ∧ ∀ word ∈ commandWords apiCmd arg, word ∈ hash ∧ isSneaky word = true

/-- `auth_api_command` ends with an answer, having looked up the words `walked`. -/
def AuthReturns (hash : List Text) (apiCmd : Text) (arg : Option Text) (ok : Bool)
    (walked : List Text) : Prop :=
  Returns (authApiBody hash arg) (authStart apiCmd) (ok, walked)

theorem runFor_authStart_none (hash : List Text) (apiCmd : Text) :
    runFor (authApiBody hash none) (authPasses none) (authStart apiCmd) =
      some (decide (apiCmd ∈ hash), [apiCmd]) := by
  by_cases allowed : apiCmd ∈ hash
  · rw [decide_eq_true allowed]
    refine runFor_returns ?_ 0
    by_cases sneaky : isSneaky apiCmd = true
    · exact authApiBody_alone rfl allowed sneaky
    · exact authApiBody_allowed allowed sneaky
  · rw [decide_eq_false allowed]
    exact runFor_returns (authApiBody_denied allowed) 0

theorem runFor_authStart_some (hash : List Text) (apiCmd arg : Text) :
    runFor (authApiBody hash (some arg)) (authPasses (some arg)) (authStart apiCmd) =
      walkWords hash [] (commandWords apiCmd (some arg)) := by
  have passes : authPasses (some arg) = (arg.splitOn ' ').length + 1 := Nat.add_comm _ _
  unfold commandWords walkWords
  rw [passes]
  by_cases allowed : apiCmd ∈ hash
  · rw [if_neg (not_not.mpr allowed)]
    by_cases sneaky : isSneaky apiCmd = true
    · rw [if_pos sneaky, runFor_goes (authApiBody_enters rfl allowed sneaky arg)]
      exact runFor_authApiBody hash (some arg) _ _ arg rfl _
    · rw [if_neg sneaky]
      exact runFor_returns (authApiBody_allowed allowed sneaky) _
  · rw [if_pos allowed]
    exact runFor_returns (authApiBody_denied allowed) _

/-- **Wrappers all the way: the walk never ends**, but starts again at the first word. -/
theorem onlyWrappers_not_returns (only : OnlyWrappers hash apiCmd arg) (ok : Bool)
    (walked : List Text) :
    ¬ AuthReturns hash apiCmd arg ok walked := by
  obtain ⟨given, wrappers⟩ := only
  obtain ⟨text, rfl⟩ := isSome_iff_exists.mp given
  let good : Text → Prop := fun check =>
    ∀ word ∈ check.splitOn ' ', word ∈ hash ∧ isSneaky word = true
  obtain ⟨⟨allowed, sneaky⟩, words⟩ := forall_mem_cons.mp wrappers
  have cuts : ∀ check, good check →
      ((cut ' ' check).1 ∈ hash ∧ isSneaky (cut ' ' check).1 = true) ∧
        ∀ more, (cut ' ' check).2 = some more → good more := by
    intro check fine
    unfold good at fine
    rw [splitOn_eq_cut, forall_mem_cons] at fine
    refine ⟨fine.1, fun more next => ?_⟩
    rw [next] at fine
    exact fine.2
  have first : good (cut ' ' text).1 := by
    intro word member
    rw [splitOn_eq_cut, cut_of_not_mem (cut_not_mem _ _)] at member
    rw [mem_singleton.mp member]
    exact (cuts text words).1
  rw [AuthReturns, returns_goes (authApiBody_enters rfl allowed sneaky text)]
  refine not_returns_of_closed
    (I := fun w => w.atCommand = false ∧ (w.word ∈ hash ∧ isSneaky w.word = true) ∧
      (∀ more, w.next = some more → good more) ∧ good w.dupArg) (fun w inside => ?_) ?_ _
  · obtain ⟨inArg, word, next, dupArg⟩ := inside
    refine ⟨_, authApiBody_goes inArg word.1 word.2, rfl, ?_⟩
    have check : good (w.next.getD w.dupArg) := by
      cases found : w.next with
      | none => exact dupArg
      | some more => exact next more found
    exact ⟨(cuts _ check).1, (cuts _ check).2, dupArg⟩
  · exact ⟨rfl, (cuts text words).1, (cuts text words).2, first⟩

theorem runFor_authStart_isSome (other : ¬ OnlyWrappers hash apiCmd arg) :
    ∃ result, runFor (authApiBody hash arg) (authPasses arg) (authStart apiCmd) = some result := by
  cases arg with
  | none => exact ⟨_, runFor_authStart_none hash apiCmd⟩
  | some text =>
    rw [runFor_authStart_some]
    refine ne_none_iff_exists'.mp fun nothing => other ⟨rfl, ?_⟩
    exact (walkWords_eq_none []).mp nothing

theorem authApiCommand_eq_some {ok : Bool} :
    authApiCommand hash apiCmd arg = some ok ↔ ∃ walked, AuthReturns hash apiCmd arg ok walked := by
  constructor
  · intro answered
    obtain ⟨⟨ok', walked⟩, ends, rfl⟩ := map_eq_some_iff.mp answered
    exact ⟨walked, _, ends⟩
  · rintro ⟨walked, returned⟩
    have other : ¬ OnlyWrappers hash apiCmd arg := fun only =>
      onlyWrappers_not_returns only ok walked returned
    obtain ⟨result, ends⟩ := runFor_authStart_isSome other
    rw [Returns.unique ⟨_, ends⟩ returned] at ends
    exact map_eq_some_iff.mpr ⟨_, ends, rfl⟩

theorem authReturns_true {walked : List Text} (yes : AuthReturns hash apiCmd arg true walked) :
    walked = wrapperChain (commandWords apiCmd arg) ∧ ∀ word ∈ walked, word ∈ hash := by
  have other : ¬ OnlyWrappers hash apiCmd arg := fun only =>
    onlyWrappers_not_returns only true walked yes
  obtain ⟨result, ends⟩ := runFor_authStart_isSome other
  obtain rfl := Returns.unique ⟨_, ends⟩ yes
  cases arg with
  | none =>
    rw [runFor_authStart_none, some_inj, Prod.mk.injEq, decide_eq_true_iff] at ends
    obtain ⟨allowed, rfl⟩ := ends
    refine ⟨?_, by simpa using allowed⟩
    unfold commandWords wrapperChain
    split <;> rfl
  | some text =>
    rw [runFor_authStart_some] at ends
    obtain ⟨rfl, inside⟩ := walkWords_eq_true ends
    exact ⟨rfl, inside⟩

/-- **Authorisation ends, and is right when it says yes**, exactly when the command and the words of
its argument are not all allowed wrappers. A yes is right in any case. -/
theorem auth_api_command_returns_iff (hash : List Text) (apiCmd : Text) (arg : Option Text) :
    (((∃ ok walked, AuthReturns hash apiCmd arg ok walked) ∧
        ∀ walked, AuthReturns hash apiCmd arg true walked →
          walked = wrapperChain (commandWords apiCmd arg) ∧ ∀ word ∈ walked, word ∈ hash) ↔
      ¬ OnlyWrappers hash apiCmd arg) ∧
    ∀ walked, AuthReturns hash apiCmd arg true walked →
      walked = wrapperChain (commandWords apiCmd arg) ∧ ∀ word ∈ walked, word ∈ hash := by
  refine ⟨⟨?_, fun other => ⟨?_, fun walked => authReturns_true⟩⟩, fun walked => authReturns_true⟩
  · rintro ⟨⟨ok, walked, returned⟩, -⟩ only
    exact onlyWrappers_not_returns only ok walked returned
  · obtain ⟨⟨ok, walked⟩, ends⟩ := runFor_authStart_isSome other
    exact ⟨ok, walked, _, ends⟩

/-- **`bgapi bgapi` is never answered** where `bgapi` is allowed. -/
theorem bgapi_bgapi_not_answered :
    ¬ ∃ ok walked, AuthReturns ["bgapi"] "bgapi" (some "bgapi") ok walked := by
  rintro ⟨ok, walked, returned⟩
  refine onlyWrappers_not_returns ⟨rfl, ?_⟩ ok walked returned
  decide

end FreeSwitch
