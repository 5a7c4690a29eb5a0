/-
**What `parse_exten` decides.**

An extension is taken when its last condition matches, or runs an anti-action. `proceed` says this
for most conditions, but it is what the last of the tests left that sets it: a condition with nothing
but a time sets it when it passes only, so one that fails leaves the answer of the condition before it;
a field that does not match resets it also where the time has made the condition match; and a group
leaves what its last `regex` gave, or a match that was kept. A group with a field and no `regex` that
matches, as one for `all` does, has no expression to look at for its actions.

* `hunt_decision_iff`: an extension, and the hunt as a whole.
-/

import FreeSwitch.Dialplan.Hunt

namespace FreeSwitch

open CString CondTests DialplanOps List Option Parsing

variable {σ : Type} {ops : DialplanOps σ}

/-! ### What the tests say -/

/-- What became of a `regex` of a group: whether its time passed, what it gave, if anything, and
whether it was kept. -/
structure RegexVisit where
  timed : Bool
  gave : Option Bool
  kept : Bool

/-- With a field, whether the expression matches it; without one, nothing where its time fails. -/
def DialplanOps.visitRegex (ops : DialplanOps σ) (xregex : XRegex) (tests : CondTests σ) : RegexVisit :=
  let (timeMatch, tests) := ops.beginRegex xregex tests
  { timed := timeMatch == .pass
    gave := match xregex.field with
      | some field => some ((ops.perform tests field).proceed != 0)
      | none => if timeMatch = .fail then none else some true
    kept := tests.grouped }

def DialplanOps.visitRegexes (ops : DialplanOps σ) (rule : RegexRule) :
    Nat → List XRegex → CondTests σ → List RegexVisit
  | _, [], _ => []
  | total, xregex :: rest, tests =>
    match ops.testRegex rule xregex tests with
    | (_, true) => [{ ops.visitRegex xregex tests with kept := false }]
    | (after, false) =>
      ops.visitRegex xregex tests :: ops.visitRegexes rule (total + 1) rest (ops.keepRegex total after)

def RegexRule.holds (visits : List RegexVisit) : RegexRule → Bool
  | .xor => visits.countP (fun visit => visit.gave = some true) == 1
  | .all => visits.countP (fun visit => visit.gave = some false) == 0
  | .any => visits.countP (fun visit => visit.gave = some true) != 0

def lastGave (before : Bool) (visits : List RegexVisit) : Bool :=
  visits.foldl (fun gave visit => visit.gave.getD gave) before

/-- The outcome of the last `regex` that was kept is that it matched. -/
def lastKept (before : Bool) (visits : List RegexVisit) : Bool :=
  visits.foldl (fun kept visit => if visit.kept then visit.gave == some true else kept) before

namespace Evaluated

def visits (ops : DialplanOps σ) (last : Evaluated σ) (rule : RegexRule) : List RegexVisit :=
  ops.visitRegexes rule 1 last.cond.regexes
    (ops.beginGroup (init last.cond last.timeMatch last.world last.before))

def fieldMatches (ops : DialplanOps σ) (last : Evaluated σ) (field : Text) : Bool :=
  let tests := ops.begin (init last.cond last.timeMatch last.world last.before)
    last.cond.field (expressionOf last.cond.expressionChild last.cond.expressionAttr)
  (ops.perform tests field).proceed != 0

/-- The condition matches: by its time or that of a `regex`, its field, or the rule of its group. -/
def matches_ (ops : DialplanOps σ) (last : Evaluated σ) : Bool :=
  last.timeMatch == .pass ||
    match last.cond.regex, last.cond.field with
    | none, some field => last.fieldMatches ops field
    | none, none => last.timeMatch == .unset
    | some rule, _ =>
      let visits := last.visits ops (regexRule rule)
      visits.any RegexVisit.timed || (regexRule rule).holds visits

/-- What a group leaves: a match that was kept, what its last `regex` gave, or what was there
before. -/
def groupAnswer (ops : DialplanOps σ) (last : Evaluated σ) (rule : RegexRule) : Bool :=
  lastKept false (last.visits ops rule) ||
    lastGave (last.timeMatch == .pass || last.before != 0) (last.visits ops rule)

/-- **The condition decides**: a field matches where the time does; a time alone that fails finds no
answer of an earlier condition; the last `regex` of a group, or the last one kept, says what the group
says; and where there are anti-actions and the condition fails, one of them runs. -/
def Decides (ops : DialplanOps σ) (last : Evaluated σ) : Prop :=
  (last.matches_ ops = false → last.cond.antiActions ≠ [] →
    ∃ xaction ∈ last.cond.antiActions, 0 < xaction.loopCount) ∧
  match last.cond.regex, last.cond.field with
  | none, some field => last.timeMatch = .pass → last.fieldMatches ops field = true
  | none, none => last.timeMatch = .fail → last.cond.antiActions = [] → last.before = 0
  | some rule, _ =>
    (last.matches_ ops = true → last.groupAnswer ops (regexRule rule) = true) ∧
    (last.matches_ ops = false → last.cond.antiActions = [] →
      last.groupAnswer ops (regexRule rule) = false)

/-- **The condition has an expression** where it matches and has a field: a group, one `regex`. -/
def Reads (ops : DialplanOps σ) (last : Evaluated σ) : Prop :=
  last.matches_ ops = true → last.cond.regex ≠ none → last.cond.regexes = [] → last.cond.field = none

instance decidableDecides (ops : DialplanOps σ) (last : Evaluated σ) :
    Decidable (last.Decides ops) := by
  unfold Decides
  split <;> infer_instance

instance decidableReads (ops : DialplanOps σ) (last : Evaluated σ) : Decidable (last.Reads ops) := by
  unfold Reads
  infer_instance

/-! ### The decision -/

def Matched (last : Evaluated σ) : Prop := last.tests.antiAction = false

def Ran (last : Evaluated σ) : Prop :=
  last.tests.antiAction = true ∧ ∃ xaction ∈ last.cond.antiActions, 0 < xaction.loopCount

/-- What the condition leaves in `proceed`. -/
def left (last : Evaluated σ) : Nat :=
  if last.tests.antiAction && !last.cond.antiActions.isEmpty then 1 else last.tests.proceed

def Honest (ops : DialplanOps σ) (last : Evaluated σ) : Prop :=
  last.tests = ops.testCond last.cond last.timeMatch last.world last.before

end Evaluated

def Parsing.Taken (parsed : Parsing σ) : Prop :=
  ∃ last, parsed.last = some last ∧ (last.Matched ∨ last.Ran)

/-- **`parse_exten` returns, and its answer is right.** -/
def Parsing.Right (parsed : Parsing σ) : Prop :=
  parsed.fault = false ∧ (parsed.proceed ≠ 0 ↔ parsed.Taken)

def Parsing.Reads (ops : DialplanOps σ) (parsed : Parsing σ) : Prop :=
  ∀ last ∈ parsed.last, last.Reads ops

def Parsing.Decides (ops : DialplanOps σ) (parsed : Parsing σ) : Prop :=
  ∀ last ∈ parsed.last, last.Decides ops

instance Parsing.decidableDecides (ops : DialplanOps σ) (parsed : Parsing σ) :
    Decidable (parsed.Reads ops ∧ parsed.Decides ops) := by
  unfold Reads Decides
  infer_instance

/-- **The hunt is right**: it stops at an extension without `continue` just when that is taken. -/
def HuntRight (visits : List (HuntVisit σ)) : Prop :=
  ∀ visit ∈ visits, visit.parsed.fault = false ∧
    (visit.stopped = true ↔ switchTrue visit.exten.continue_ = false ∧ visit.parsed.Taken)

/-! ### A group -/

section Group

variable {rule : RegexRule} {regexes : List XRegex} {total : Nat} {tests : CondTests σ}

def CondTests.KeepsMatch (tests : CondTests σ) : Prop := ∀ saved ∈ tests.saved, saved.proceed ≠ 0

structure Tells (tests after : CondTests σ) (visits : List RegexVisit) : Prop where
  anti : after.antiAction = (tests.antiAction && !visits.any RegexVisit.timed)
  pass : after.pass = tests.pass + visits.countP fun visit => visit.gave = some true
  fail : after.fail = tests.fail + visits.countP fun visit => visit.gave = some false
  gave : (after.proceed != 0) = lastGave (tests.proceed != 0) visits
  kept : after.saved.isSome = lastKept tests.saved.isSome visits

theorem Tells.trans {after later : CondTests σ} {first second : List RegexVisit}
    (before : Tells tests after first) (behind : Tells after later second) :
    Tells tests later (first ++ second) where
  anti := by rw [behind.anti, before.anti, any_append, Bool.not_or, Bool.and_assoc]
  pass := by rw [behind.pass, before.pass, countP_append, Nat.add_assoc]
  fail := by rw [behind.fail, before.fail, countP_append, Nat.add_assoc]
  gave := by rw [behind.gave, before.gave, lastGave, lastGave, lastGave, foldl_append]
  kept := by rw [behind.kept, before.kept, lastKept, lastKept, lastKept, foldl_append]

theorem Tells.single {after : CondTests σ} {visit : RegexVisit}
    (anti : after.antiAction = (tests.antiAction && !visit.timed))
    (pass : after.pass = tests.pass + if visit.gave = some true then 1 else 0)
    (fail : after.fail = tests.fail + if visit.gave = some false then 1 else 0)
    (gave : (after.proceed != 0) = visit.gave.getD (tests.proceed != 0))
    (kept : after.saved.isSome = if visit.kept then visit.gave == some true else tests.saved.isSome) :
    Tells tests after [visit] where
  anti := by simpa using anti
  pass := by simpa [countP_cons] using pass
  fail := by simpa [countP_cons] using fail
  gave := gave
  kept := kept

variable (xregex : XRegex)

theorem testRegex_tells : Tells tests (ops.testRegex rule xregex tests).1
      [{ ops.visitRegex xregex tests with kept := false }] := by
  unfold testRegex visitRegex
  cases xregex.field with
  | some field =>
    dsimp only
    split
    case isTrue passed =>
      have gave := bne_iff_ne.mpr passed
      refine .single rfl ?_ ?_ ?_ rfl
      all_goals simp only [gave]
      all_goals rfl
    case isFalse failed =>
      have gave := Bool.eq_false_of_not_eq_true (mt bne_iff_ne.mp failed)
      refine .single rfl ?_ ?_ ?_ rfl
      all_goals simp only [gave]
      all_goals rfl
  | none =>
    dsimp only
    split
    case isTrue time => exact .single rfl rfl rfl rfl rfl
    case isFalse time => exact .single rfl rfl rfl rfl rfl

theorem perform_re {field : Text} :
    (ops.perform tests field).re.isSome = ((ops.perform tests field).proceed != 0) := by
  unfold perform
  dsimp only
  split
  case isTrue failed => rw [failed]; rfl
  case isFalse passed => exact (bne_iff_ne.mpr passed).symm

theorem testRegex_grouped :
    (ops.testRegex rule xregex tests).1.grouped = (ops.visitRegex xregex tests).kept ∧
      ((ops.visitRegex xregex tests).kept = true → (ops.testRegex rule xregex tests).1.re.isSome =
          ((ops.visitRegex xregex tests).gave == some true)) := by
  unfold testRegex visitRegex
  cases has : xregex.field with
  | some field =>
    dsimp only
    split
    case isTrue passed =>
      refine ⟨rfl, fun _ => perform_re.trans ?_⟩
      rw [bne_iff_ne.mpr passed]
      rfl
    case isFalse failed =>
      refine ⟨rfl, fun _ => perform_re.trans ?_⟩
      rw [Bool.eq_false_of_not_eq_true (mt bne_iff_ne.mp failed)]
      rfl
  | none =>
    have fieldless : (ops.beginRegex xregex tests).2.field = none := has
    have ungrouped : (ops.beginRegex xregex tests).2.grouped = false := by
      rw [grouped, fieldless]
      rfl
    dsimp only
    split
    all_goals exact ⟨rfl, fun kept => absurd kept (by rw [ungrouped]; decide)⟩

theorem keepRegex_frame : (ops.keepRegex total tests).antiAction = tests.antiAction ∧
      (ops.keepRegex total tests).pass = tests.pass ∧ (ops.keepRegex total tests).fail = tests.fail ∧
      (ops.keepRegex total tests).proceed = tests.proceed ∧
      (ops.keepRegex total tests).saved.isSome =
        if tests.grouped then tests.re.isSome else tests.saved.isSome := by
  unfold keepRegex
  split
  · exact ⟨rfl, rfl, rfl, rfl, isSome_map ..⟩
  · exact ⟨rfl, rfl, rfl, rfl, rfl⟩

theorem keepRegex_tells :
    Tells tests (ops.keepRegex total (ops.testRegex rule xregex tests).1)
      [ops.visitRegex xregex tests] := by
  have tested := @testRegex_tells _ ops rule tests xregex
  obtain ⟨anti, pass, fail, proceed, saved⟩ :=
    @keepRegex_frame _ ops total (ops.testRegex rule xregex tests).1
  obtain ⟨grouped, compiled⟩ := @testRegex_grouped _ ops rule tests xregex
  refine ⟨anti.trans tested.anti, pass.trans tested.pass, fail.trans tested.fail, ?_, ?_⟩
  · rw [proceed]
    exact tested.gave
  · rw [saved, grouped]
    change _ = if _ then _ else _
    split
    case isTrue kept => exact compiled kept
    case isFalse unkept => exact tested.kept

theorem testRegexes_tells : Tells tests (ops.testRegexes rule total regexes tests)
      (ops.visitRegexes rule total regexes tests) := by
  induction regexes generalizing total tests with
  | nil => exact ⟨by simp [testRegexes, visitRegexes], rfl, rfl, rfl, rfl⟩
  | cons xregex rest ih =>
    rw [testRegexes, visitRegexes]
    have here := @testRegex_tells _ ops rule tests xregex
    have kept := @keepRegex_tells _ ops rule total tests xregex
    generalize ops.testRegex rule xregex tests = result at here kept
    obtain ⟨after, _ | _⟩ := result
    case cons.false => exact kept.trans ih
    case cons.true => exact here

theorem testRegex_saved : (ops.testRegex rule xregex tests).1.saved = tests.saved := by
  unfold testRegex
  cases xregex.field <;> dsimp only <;> split <;> rfl

theorem keepRegex_keepsMatch (keeps : tests.KeepsMatch) :
    (ops.keepRegex total (ops.testRegex rule xregex tests).1).KeepsMatch := by
  have tested := (@testRegex_tells _ ops rule tests xregex).gave
  obtain ⟨grouped, compiled⟩ := @testRegex_grouped _ ops rule tests xregex
  unfold keepRegex KeepsMatch
  split
  case isTrue kept =>
    intro saved member
    obtain ⟨re, present, rfl⟩ := Option.map_eq_some_iff.mp member
    have gave := compiled (grouped.symm.trans kept)
    rw [present, Option.isSome_some, eq_comm, beq_iff_eq] at gave
    refine bne_iff_ne.mp (tested.trans ?_)
    change Option.getD _ _ = true
    rw [gave]
    rfl
  case isFalse =>
    rw [testRegex_saved]
    exact keeps

theorem testRegexes_keepsMatch (keeps : tests.KeepsMatch) :
    (ops.testRegexes rule total regexes tests).KeepsMatch := by
  induction regexes generalizing total tests with
  | nil => exact keeps
  | cons xregex rest ih =>
    rw [testRegexes]
    have same := @testRegex_saved _ ops rule tests xregex
    have kept := @keepRegex_keepsMatch _ ops rule total tests xregex keeps
    generalize ops.testRegex rule xregex tests = result at same kept
    obtain ⟨after, _ | _⟩ := result
    case cons.false => exact ih kept
    case cons.true =>
      unfold KeepsMatch
      rw [same]
      exact keeps

theorem restore_proceed (keeps : tests.KeepsMatch) :
    (tests.restore.proceed != 0) = (tests.saved.isSome || tests.proceed != 0) := by
  unfold restore
  split
  case h_1 unsaved => rw [unsaved]; rfl
  case h_2 saved present =>
    rw [present]
    exact bne_iff_ne.mpr (keeps saved present)

theorem restore_antiAction : tests.restore.antiAction = tests.antiAction := by
  unfold restore
  split <;> rfl

theorem testGroup_tells (passed : tests.pass = 0) (failed : tests.fail = 0)
    (unsaved : tests.saved = none) {visits : List RegexVisit}
    (visited : ops.visitRegexes rule 1 regexes (ops.beginGroup tests) = visits) :
    (ops.testGroup rule regexes tests).antiAction =
      (tests.antiAction && !(visits.any RegexVisit.timed || rule.holds visits)) ∧
    ((ops.testGroup rule regexes tests).proceed != 0) =
      (lastKept false visits || lastGave (tests.proceed != 0) visits) := by
  have tells := @testRegexes_tells _ ops rule regexes 1 (ops.beginGroup tests)
  have keeps : (ops.testRegexes rule 1 regexes (ops.beginGroup tests)).KeepsMatch :=
    testRegexes_keepsMatch fun saved member => absurd (unsaved.symm.trans member) nofun
  rw [visited] at tells
  unfold testGroup
  generalize ops.testRegexes rule 1 regexes (ops.beginGroup tests) = after at tells keeps
  have sum : after.groupMatches rule = rule.holds visits := by
    have passes : after.pass = visits.countP fun visit => visit.gave = some true := by
      rw [tells.pass, beginGroup, passed, Nat.zero_add]
    have fails : after.fail = visits.countP fun visit => visit.gave = some false := by
      rw [tells.fail, beginGroup, failed, Nat.zero_add]
    cases rule <;> simp only [groupMatches, RegexRule.holds, passes, fails]
  constructor
  · rw [restore_antiAction, tells.anti, sum, Bool.not_or, ← Bool.and_assoc]
    rfl
  · refine Eq.trans (restore_proceed (by exact keeps)) ?_
    rw [tells.kept, tells.gave, beginGroup, unsaved]
    rfl

theorem testRegex_expression : (ops.testRegex rule xregex tests).1.expression.isSome = true := by
  unfold testRegex
  cases xregex.field <;> dsimp only <;> split <;> rfl

theorem testRegexes_expression (set : tests.expression.isSome = true ∨ regexes ≠ []) :
    (ops.testRegexes rule total regexes tests).expression.isSome = true := by
  induction regexes generalizing total tests with
  | nil => exact set.resolve_right (absurd rfl)
  | cons xregex rest ih =>
    rw [testRegexes]
    have here := @testRegex_expression _ ops rule tests xregex
    generalize ops.testRegex rule xregex tests = result at here
    obtain ⟨after, _ | _⟩ := result
    case cons.true => exact here
    case cons.false =>
      refine ih (.inl ?_)
      unfold keepRegex
      split <;> exact here

theorem testCond_faults (xcond : XCond) (timeMatch : TimeMatch) (world : σ) (proceed : Nat) :
    (ops.testCond xcond timeMatch world proceed).faults =
      (xcond.regex.isSome && xcond.regexes.isEmpty && xcond.field.isSome) := by
  unfold testCond
  cases xcond.regex with
  | none =>
    unfold testPlain
    cases xcond.field with
    | some field => rfl
    | none =>
      dsimp only
      split <;> rfl
  | some rule =>
    dsimp only [testGroup]
    cases xcond.regexes with
    | nil => exact Bool.and_comm xcond.field.isSome true
    | cons xregex rest =>
      have set := @testRegexes_expression _ ops (regexRule rule) (xregex :: rest) 1
        (ops.beginGroup (init xcond timeMatch world proceed)) (.inr nofun)
      unfold restore faults
      split
      · dsimp only
        rw [isNone_eq_false_iff.mpr set]
        simp
      · simp

end Group

/-! ### One condition -/

namespace Evaluated

variable {last : Evaluated σ}

theorem Honest.group (honest : last.Honest ops) {rule : Text} (grouped : last.cond.regex = some rule) :
    last.tests.antiAction = !last.matches_ ops ∧
      (last.tests.proceed != 0) = last.groupAnswer ops (regexRule rule) := by
  obtain ⟨anti, proceed⟩ := @testGroup_tells _ ops (regexRule rule) last.cond.regexes
    (init last.cond last.timeMatch last.world last.before) rfl rfl rfl
    (last.visits ops (regexRule rule)) rfl
  have tests : last.tests = ops.testGroup (regexRule rule) last.cond.regexes
      (init last.cond last.timeMatch last.world last.before) := by
    rw [honest, testCond, grouped]
  rw [tests, anti, proceed, matches_, grouped, groupAnswer]
  dsimp only [init]
  cases last.timeMatch <;> exact ⟨rfl, rfl⟩

theorem Honest.field (honest : last.Honest ops) (plain : last.cond.regex = none) {field : Text}
    (has : last.cond.field = some field) :
    last.tests.antiAction = !last.matches_ ops ∧
      (last.tests.proceed != 0) = last.fieldMatches ops field := by
  have tests : last.tests.antiAction = (last.timeMatch != .pass && last.tests.proceed == 0) ∧
      (last.tests.proceed != 0) = last.fieldMatches ops field := by
    rw [honest, testCond, plain]
    dsimp only [testPlain, fieldMatches]
    rw [has]
    exact ⟨rfl, rfl⟩
  refine ⟨?_, tests.2⟩
  rw [matches_, plain, has, tests.1]
  dsimp only
  rw [← tests.2]
  cases last.timeMatch <;> simp [bne]

theorem Honest.time (honest : last.Honest ops) (plain : last.cond.regex = none)
    (has : last.cond.field = none) :
    last.tests.antiAction = !last.matches_ ops ∧
      last.tests.proceed = if last.timeMatch = .fail then last.before else 1 := by
  rw [honest, testCond, plain, matches_, plain, has]
  dsimp only [testPlain]
  rw [has]
  cases last.timeMatch <;> exact ⟨rfl, rfl⟩

theorem Honest.anti (honest : last.Honest ops) : last.tests.antiAction = !last.matches_ ops := by
  cases grouped : last.cond.regex with
  | some rule => exact (honest.group grouped).1
  | none =>
    cases has : last.cond.field with
    | some field => exact (honest.field grouped has).1
    | none => exact (honest.time grouped has).1

theorem Honest.right_iff_agrees (honest : last.Honest ops) :
    (last.left ≠ 0 ↔ last.Matched ∨ last.Ran) ↔
      (last.matches_ ops = false → last.cond.antiActions ≠ [] →
        ∃ xaction ∈ last.cond.antiActions, 0 < xaction.loopCount) ∧
      (last.matches_ ops = true → last.tests.proceed ≠ 0) ∧
      (last.matches_ ops = false → last.cond.antiActions = [] → last.tests.proceed = 0) := by
  unfold left Matched Ran
  rw [honest.anti]
  cases last.matches_ ops with
  | true => simp
  | false =>
    cases last.cond.antiActions with
    | nil => simp
    | cons first rest => simp

theorem Honest.right_iff_decides (honest : last.Honest ops) :
    (last.left ≠ 0 ↔ last.Matched ∨ last.Ran) ↔ last.Decides ops := by
  refine honest.right_iff_agrees.trans (and_congr_right fun _ => ?_)
  cases grouped : last.cond.regex with
  | some rule =>
    have answer := (honest.group grouped).2
    dsimp only
    rw [← answer]
    simp
  | none =>
    cases has : last.cond.field with
    | some field =>
      have answer := (honest.field grouped has).2
      rw [matches_, grouped, has]
      dsimp only
      rw [← answer]
      cases last.timeMatch <;> simp +contextual
    | none =>
      rw [(honest.time grouped has).2, matches_, grouped, has]
      cases last.timeMatch <;> simp

end Evaluated

/-! ### One extension -/

/-- `proceed` is what the last condition left, and 0 before the first. -/
def Parsing.Kept (ops : DialplanOps σ) (parsing : Parsing σ) : Prop :=
  match parsing.last with
  | none => parsing.proceed = 0 ∧ parsing.fault = false
  | some last => parsing.proceed = last.left ∧ last.Honest ops ∧
      parsing.fault = (!last.tests.antiAction && last.tests.faults)

theorem kept_evalCond {name : Text} {xcond : XCond} {timeMatch : TimeMatch} {parsing : Parsing σ} :
    (ops.evalCond name xcond timeMatch parsing).Kept ops := by
  unfold evalCond
  dsimp only
  split
  case isTrue anti =>
    refine ⟨?_, rfl, by simp [anti]⟩
    unfold Evaluated.left
    rw [anti]
    cases xcond.antiActions.isEmpty <;> rfl
  case isFalse matched =>
    refine ⟨?_, rfl, by simp [matched]⟩
    unfold Evaluated.left
    dsimp only
    rw [Bool.eq_false_of_not_eq_true matched]
    rfl

theorem kept_parseConds {name : Text} {inner : XCond → HuntState σ → Parsing σ} {conds : List XCond}
    {parsing : Parsing σ} (flat : ∀ xcond ∈ conds, xcond.nested = []) (kept : parsing.Kept ops) :
    (ops.parseConds name inner conds parsing).Kept ops := by
  induction conds generalizing parsing with
  | nil => exact kept
  | cons xcond rest ih =>
    have first : xcond.nested = [] := flat xcond mem_cons_self
    have others : ∀ xcond ∈ rest, xcond.nested = [] := fun xcond member =>
      flat xcond (mem_cons_of_mem _ member)
    simp only [parseConds, first, isEmpty_nil, if_true, Bool.not_true,
      Bool.false_and, Bool.false_eq_true, if_false]
    split
    · exact kept
    · split
      · exact kept_evalCond
      · exact ih others kept_evalCond

theorem kept_parseExten {xexten : XExten} {state : HuntState σ}
    (flat : ∀ xcond ∈ xexten.conds, xcond.nested = []) : (ops.parseExten xexten state).Kept ops :=
  kept_parseConds flat ⟨rfl, rfl⟩

theorem Parsing.Kept.fault_iff {parsed : Parsing σ} (kept : parsed.Kept ops) :
    parsed.fault = false ↔ parsed.Reads ops := by
  unfold Kept at kept
  unfold Reads
  cases evaluated : parsed.last with
  | none =>
    rw [evaluated] at kept
    simp [kept]
  | some last =>
    rw [evaluated] at kept
    obtain ⟨-, honest, fault⟩ := kept
    simp only [mem_def, some.injEq, forall_eq']
    rw [fault, honest.anti, honest, testCond_faults, Evaluated.Reads]
    cases last.matches_ ops <;> cases last.cond.regex <;> cases last.cond.regexes <;>
      cases last.cond.field <;> simp

theorem Parsing.Kept.answer_iff {parsed : Parsing σ} (kept : parsed.Kept ops) :
    (parsed.proceed ≠ 0 ↔ parsed.Taken) ↔ parsed.Decides ops := by
  unfold Kept at kept
  unfold Decides Taken
  cases evaluated : parsed.last with
  | none =>
    rw [evaluated] at kept
    simp [kept]
  | some last =>
    rw [evaluated] at kept
    rw [kept.1]
    simpa using kept.2.1.right_iff_decides

/-! ### The hunt -/

theorem mem_huntFrom {extens : List XExten} {state : HuntState σ} {visit : HuntVisit σ}
    (member : visit ∈ (ops.huntFrom extens state).1) :
    visit.exten ∈ extens ∧ (∃ before, visit.parsed = ops.parseExten visit.exten before) ∧
      visit.stopped =
        (!visit.parsed.fault && (visit.parsed.proceed ≠ 0 && !switchTrue visit.exten.continue_)) := by
  induction extens generalizing state with
  | nil => exact absurd member not_mem_nil
  | cons xexten rest ih =>
    rw [huntFrom] at member
    dsimp only at member
    split_ifs at member with fault stops
    · obtain rfl := mem_singleton.mp member
      exact ⟨mem_cons_self, ⟨state, rfl⟩, by simp [fault]⟩
    · obtain rfl := mem_singleton.mp member
      exact ⟨mem_cons_self, ⟨state, rfl⟩, by rw [stops, Bool.eq_false_of_not_eq_true fault]; rfl⟩
    · rcases mem_cons.mp member with rfl | later
      · exact ⟨mem_cons_self, ⟨state, rfl⟩, by rw [Bool.eq_false_of_not_eq_true stops, Bool.and_false]⟩
      · obtain ⟨among, parsed⟩ := ih later
        exact ⟨mem_cons_of_mem _ among, parsed⟩

theorem mem_huntStart {world : σ} {extens : List XExten} {xexten : XExten}
    (member : xexten ∈ ops.huntStart world extens) : xexten ∈ extens := by
  unfold huntStart at member
  dsimp only at member
  split at member
  · exact (dropWhile_sublist _).subset member
  · exact member

/-- **`parse_exten` and the hunt are right just where the last conditions decide**, and have an
expression to look at. -/
theorem hunt_decision_iff (ops : DialplanOps σ) (extens : List XExten)
    (flat : ∀ xexten ∈ extens, ∀ xcond ∈ xexten.conds, xcond.nested = []) (world : σ) :
    (∀ xexten ∈ extens, ∀ state, (ops.parseExten xexten state).Right ↔
      (ops.parseExten xexten state).Reads ops ∧ (ops.parseExten xexten state).Decides ops) ∧
    (HuntRight (ops.dialplanHunt extens world).1 ↔ ∀ visit ∈ (ops.dialplanHunt extens world).1,
        visit.parsed.Reads ops ∧
          (switchTrue visit.exten.continue_ = false → visit.parsed.Decides ops)) := by
  constructor
  · intro xexten member state
    have kept := @kept_parseExten _ ops xexten state (flat xexten member)
    exact and_congr kept.fault_iff kept.answer_iff
  · refine forall₂_congr fun visit member => ?_
    obtain ⟨among, ⟨before, parsed⟩, stopped⟩ := mem_huntFrom member
    have kept : visit.parsed.Kept ops := by
      rw [parsed]
      exact kept_parseExten (flat _ (mem_huntStart among))
    rw [stopped, ← kept.fault_iff, ← kept.answer_iff]
    refine and_congr_right fun sound => ?_
    rw [sound]
    cases switchTrue visit.exten.continue_ <;> simp

/-! ### An answer left behind -/

/-- An expression matches the field that it is equal to, and a time passes when its value is `1`. -/
def sampleDialplan : DialplanOps Unit where
  datetimeCheck := fun world times =>
    (match times with
      | [] => .unset
      | (_, value) :: _ => if value = ['1'] then .pass else .fail, world)
  expandVariables := fun world text => (text, world)
  getFieldByName := fun _ field => some field
  regexPerform := fun field expression ovector => (if field = expression then 1 else 0, ovector)
  delVariablePrefix := fun world _ => world
  unsetVariable := fun world _ => world
  captureRegex := fun world _ _ _ _ _ => world
  performSubstitution := fun _ _ data _ _ => data
  execApp := fun world _ _ => world
  destinationNumber := fun _ => "1000"
  autoHunt := fun _ => none

def timeCondition (times : List (Text × Text)) : XCond :=
  .mk times none none none none none []
    [⟨some "answer", none, [], none, none⟩] [] none []

def closedExten : XExten :=
  ⟨some "closed", none, [timeCondition [], timeCondition [("wday", ['0'])]]⟩

def openExten : XExten := ⟨some "always", none, [timeCondition []]⟩

def fieldCondition (field expression : String) (antiActions : List XAction) : XCond :=
  .mk [] (some field.toList) none (some expression.toList) none none []
    [⟨some "answer", none, [], none, none⟩] antiActions none []

def allCondition : XCond :=
  .mk [] none none none none (some "all")
    [⟨[], some "a", none, some "a"⟩, ⟨[], none, none, none⟩]
    [⟨some "answer", none, [], none, none⟩] [] none []

/-- A time that passes and a field that does not match; an anti-action, with `continue`; a group. -/
def threeExtens : List XExten :=
  [⟨none, none, [timeCondition [("wday", ['1'])], fieldCondition "a" "b" []]⟩,
    ⟨none, some "true", [fieldCondition "a" "b" [⟨none, none, [], none, none⟩]]⟩,
    ⟨none, none, [allCondition]⟩, openExten]

theorem hunt_decision_three :
    (sampleDialplan.dialplanHunt threeExtens ()).1.map (·.stopped) = [false, false, true] ∧
      HuntRight (sampleDialplan.dialplanHunt threeExtens ()).1 := by
  refine ⟨by decide, (hunt_decision_iff sampleDialplan threeExtens (by decide) ()).2.mpr ?_⟩
  intro visit member
  have both : ∀ visit ∈ (sampleDialplan.dialplanHunt threeExtens ()).1,
      visit.parsed.Reads sampleDialplan ∧ visit.parsed.Decides sampleDialplan := by decide
  exact (both visit member).imp_right fun decides _ => decides

/-- The hunt stops at an extension whose last condition failed and ran nothing. -/
theorem hunt_stops_untaken :
    (sampleDialplan.dialplanHunt [closedExten, openExten] ()).1.map (fun visit =>
      (visit.exten.name, visit.stopped)) = [(some "closed".toList, true)] ∧
    (sampleDialplan.parseExten closedExten ⟨(), none⟩).proceed = 1 ∧
    ¬ (sampleDialplan.parseExten closedExten ⟨(), none⟩).Taken ∧
    ¬ HuntRight (sampleDialplan.dialplanHunt [closedExten, openExten] ()).1 := by
  have untaken : ¬ (sampleDialplan.parseExten closedExten ⟨(), none⟩).Taken := by
    rintro ⟨last, evaluated, matched | ⟨-, xaction, member, -⟩⟩
    all_goals obtain rfl := some.inj evaluated
    · exact absurd (show true = false from matched) (by decide)
    · exact absurd member not_mem_nil
  refine ⟨by decide, by decide, untaken, fun right => untaken ?_⟩
  exact ((right _ mem_cons_self).2.mp rfl).2

/-- A group for `all` with a field, and no `regex`. -/
example : (sampleDialplan.parseExten
    ⟨none, none, [.mk [] (some ['a']) none none none (some "all") [] [] [] none []]⟩
    ⟨(), none⟩).fault = true := by decide

end FreeSwitch
