/-
**The buffers of `parse_exten`.**

For the data of an action `parse_exten` allocates `(strlen(data) + strlen(field_data) + 10) * proceed`
bytes, where `proceed` is the number of matches of the test that is used: a `regex` that was kept, or
the last one tested. Whether the actions run does not depend on that test alone: a time that passes, or
another `regex` of a group, makes a condition match whose last test fails. Then there is no byte, and
`len - 1` is the largest number of all.

* `substitution_buffers`: when the buffers are as long as they are said to be, and nothing is
  written behind;
* `indentation_inside_iff`: the buffer for the indentation is one byte too short for the last level.
-/

import FreeSwitch.Dialplan.Decision
import FreeSwitch.Dialplan.Substitution

namespace FreeSwitch

open CString CondTests DialplanOps List RegexSubstitution

variable {σ : Type} {ops : DialplanOps σ}

/-! ### The calls -/

/-- What `pcre_get_substring` finds in the field, by number. -/
def capturesOf (fieldData : Text) (ovector : List Int) (count : Nat) : List Text :=
  (List.range count).map fun i =>
    let first := ovector.getD (2 * i) 0
    (fieldData.drop first.toNat).take (ovector.getD (2 * i + 1) 0 - first).toNat

/-- A call of `switch_perform_substitution`, and the size of its buffer. -/
structure SubstCall where
  allocated : Nat
  args : RegexSubstitution

/-- **The call is told the size of its buffer, which is not empty, and stays inside.** -/
def SubstCall.Safe (call : SubstCall) : Prop :=
  1 ≤ call.args.len ∧ call.args.len = call.allocated ∧
    ∀ n, (call.args.written n start).length ≤ call.allocated

def CondTests.substCall (beyond : Nat → Char) (tests : CondTests σ) (xaction : XAction) : SubstCall :=
  let len := (xaction.dataText.length + tests.fieldData.length + 10) % 2 ^ 32 * tests.proceed % 2 ^ 32
  { allocated := len
    args :=
      { captures := capturesOf tests.fieldData tests.ovector tests.proceed
        data := xaction.dataText
        len
        beyond } }

def Evaluated.substCalls (beyond : Nat → Char) (last : Evaluated σ) : List SubstCall :=
  if !last.tests.antiAction && last.tests.grouped then
    last.cond.actions.map (last.tests.substCall beyond)
  else []

section Trace

variable {τ : Type}

/-- What `own` tells of the conditions that `parse_exten` evaluates, and `inside` of those inside a
condition. -/
def DialplanOps.trace (ops : DialplanOps σ) (own : Evaluated σ → List τ) (name : Text)
    (inner : XCond → HuntState σ → Parsing σ) (inside : XCond → HuntState σ → List τ) :
    List XCond → Parsing σ → List τ
  | [], _ => []
  | xcond :: rest, parsing =>
    let (timeMatch, world) := ops.datetimeCheck parsing.state.world xcond.times
    let parsing := { parsing with state := { parsing.state with world } }
    let told := if xcond.nested.isEmpty then [] else inside xcond parsing.state
    let parsing := if xcond.nested.isEmpty then parsing else
      { parsing with
        state := (inner xcond parsing.state).state
        proceed := (inner xcond parsing.state).proceed
        fault := (inner xcond parsing.state).fault }
    told ++
      if parsing.fault then []
      else if !xcond.nested.isEmpty && parsing.proceed == 0 then
        if xcond.doBreak = .never then ops.trace own name inner inside rest parsing else []
      else
        let parsing := ops.evalCond name xcond timeMatch parsing
        let antiAction := parsing.last.elim false fun last => last.tests.antiAction
        parsing.last.elim [] own ++
          if parsing.fault || xcond.doBreak.breaks antiAction then []
          else ops.trace own name inner inside rest parsing

/-- The same for the conditions inside a condition, with so many levels left; `call` tells of each
call of `parse_exten`, by its level. -/
def DialplanOps.traceNested (ops : DialplanOps σ) (own : Evaluated σ → List τ) (call : Nat → List τ)
    (name : Text) : Nat → XCond → HuntState σ → List τ
  | 0, _, _ => call (maxRecur + 1)
  | levels + 1, xcond, state =>
    call (maxRecur - levels) ++
      ops.trace own (snprintf 128 (name ++ "_recur_" ++ printInt (maxRecur - levels)))
        (ops.parseNested name levels) (ops.traceNested own call name levels) xcond.nested
        ⟨state, 0, none, false⟩

def DialplanOps.traceExten (ops : DialplanOps σ) (own : Evaluated σ → List τ) (call : Nat → List τ)
    (xexten : XExten) (state : HuntState σ) : List τ :=
  let name := xexten.name.getD "UNKNOWN"
  call 0 ++ ops.trace own name (ops.parseNested name maxRecur) (ops.traceNested own call name maxRecur)
    xexten.conds ⟨state, 0, none, false⟩

end Trace

/-- The conditions that `parse_exten` evaluates. -/
def DialplanOps.evaluationsExten (ops : DialplanOps σ) : XExten → HuntState σ → List (Evaluated σ) :=
  ops.traceExten (fun last => [last]) fun _ => []

/-- The levels of the calls of `parse_exten`. -/
def DialplanOps.levelsExten (ops : DialplanOps σ) : XExten → HuntState σ → List Nat :=
  ops.traceExten (fun _ => []) fun recur => [recur]

/-! ### The test that is used -/

/-- The last `regex` that is come to has a field, and a group in its expression. -/
def DialplanOps.endsGrouped (ops : DialplanOps σ) (rule : RegexRule) :
    Nat → List XRegex → CondTests σ → Bool
  | _, [], tests => tests.grouped
  | total, xregex :: rest, tests =>
    match ops.testRegex rule xregex tests with
    | (_, true) => (ops.visitRegex xregex tests).kept
    | (after, false) => ops.endsGrouped rule (total + 1) rest (ops.keepRegex total after)

namespace Evaluated

/-- The test that the actions use has a group: the field's, or in a group of tests one that was
kept, or the last. -/
def usesGroup (ops : DialplanOps σ) (last : Evaluated σ) : Bool :=
  let tests := init last.cond last.timeMatch last.world last.before
  match last.cond.regex with
  | none => (ops.begin tests last.cond.field
      (expressionOf last.cond.expressionChild last.cond.expressionAttr)).grouped
  | some rule =>
    let rule := regexRule rule
    lastKept false (last.visits ops rule) ||
      ops.endsGrouped rule 1 last.cond.regexes (ops.beginGroup tests)

def usedMatches (ops : DialplanOps σ) (last : Evaluated σ) : Bool :=
  match last.cond.regex, last.cond.field with
  | none, some field => last.fieldMatches ops field
  | none, none => true
  | some rule, _ => last.groupAnswer ops (regexRule rule)

/-- **The actions have room**: where the condition matches, so does the test they use, and the
length of the buffer does not wrap to zero. -/
def HasRoom (ops : DialplanOps σ) (last : Evaluated σ) : Prop :=
  last.matches_ ops = true → last.usesGroup ops = true → ∀ xaction ∈ last.cond.actions,
    last.usedMatches ops = true ∧
      (last.tests.proceed ≠ 0 → ¬ 2 ^ 32 ∣
        (xaction.dataText.length + last.tests.fieldData.length + 10) % 2 ^ 32 * last.tests.proceed)

end Evaluated

section Group

variable {rule : RegexRule} {regexes : List XRegex} {total : Nat} {tests : CondTests σ}

def CondTests.KeepsGroup (tests : CondTests σ) : Prop :=
  ∀ saved ∈ tests.saved, saved.expression.contains '(' = true

theorem keepRegex_keepsGroup (keeps : tests.KeepsGroup) : (ops.keepRegex total tests).KeepsGroup := by
  unfold keepRegex KeepsGroup
  split
  case isTrue grouped =>
    intro saved member
    obtain ⟨re, -, rfl⟩ := Option.map_eq_some_iff.mp member
    have opens := (Bool.and_eq_true_iff.mp grouped).2
    cases present : tests.expression with
    | none =>
      rw [present] at opens
      cases opens
    | some expression =>
      rw [present] at opens
      exact opens
  case isFalse => exact keeps

theorem testRegexes_grouped (keeps : tests.KeepsGroup) :
    (ops.testRegexes rule total regexes tests).grouped = ops.endsGrouped rule total regexes tests ∧
      (ops.testRegexes rule total regexes tests).KeepsGroup := by
  induction regexes generalizing total tests with
  | nil => exact ⟨rfl, keeps⟩
  | cons xregex rest ih =>
    rw [testRegexes, endsGrouped]
    have same := @testRegex_saved _ ops rule tests xregex
    have grouped := (@testRegex_grouped _ ops rule tests xregex).1
    generalize ops.testRegex rule xregex tests = result at same grouped
    have kept : result.1.KeepsGroup := by
      rw [KeepsGroup, same]
      exact keeps
    obtain ⟨after, _ | _⟩ := result
    case cons.false => exact ih (keepRegex_keepsGroup kept)
    case cons.true => exact ⟨grouped, kept⟩

theorem restore_grouped (keeps : tests.KeepsGroup) :
    tests.restore.grouped = (tests.saved.isSome || tests.grouped) := by
  unfold restore
  split
  case h_1 unsaved => rw [unsaved]; rfl
  case h_2 saved present =>
    rw [present]
    exact keeps saved present

end Group

namespace Evaluated

variable {last : Evaluated σ}

theorem Honest.tests_grouped (honest : last.Honest ops) :
    last.tests.grouped = last.usesGroup ops := by
  rw [honest, testCond, usesGroup]
  generalize start : init last.cond last.timeMatch last.world last.before = tests
  have unsaved : tests.saved = none := start ▸ rfl
  cases last.cond.regex with
  | none =>
    dsimp only [testPlain]
    cases last.cond.field with
    | some field => rfl
    | none =>
      dsimp only
      split <;> rfl
  | some rule =>
    have kept := (@testRegexes_tells _ ops (regexRule rule) last.cond.regexes 1 (ops.beginGroup tests)).kept
    obtain ⟨grouped, keeps⟩ := @testRegexes_grouped _ ops (regexRule rule) last.cond.regexes 1
      (ops.beginGroup tests) fun saved member => by cases unsaved.symm.trans member
    refine (restore_grouped (by exact keeps)).trans ?_
    dsimp only
    rw [kept, visits, start, ← grouped, beginGroup, unsaved]
    rfl

theorem Honest.proceed_used (honest : last.Honest ops) (grouped : last.usesGroup ops = true) :
    (last.tests.proceed != 0) = last.usedMatches ops := by
  unfold usedMatches
  cases has : last.cond.regex with
  | some rule => exact (honest.group has).2
  | none =>
    cases field : last.cond.field with
    | some field => exact (honest.field has field).2
    | none =>
      rw [usesGroup, has] at grouped
      dsimp only [begin, grouped] at grouped
      rw [field] at grouped
      cases grouped

theorem substCall_safe_iff {beyond : Nat → Char} {tests : CondTests σ} {xaction : XAction} :
    (tests.substCall beyond xaction).Safe ↔ tests.proceed ≠ 0 ∧ (tests.proceed ≠ 0 → ¬ 2 ^ 32 ∣
      (xaction.dataText.length + tests.fieldData.length + 10) % 2 ^ 32 * tests.proceed) := by
  have some : (tests.substCall beyond xaction).Safe ↔ 1 ≤ (tests.substCall beyond xaction).args.len :=
    ⟨And.left, fun positive => ⟨positive, rfl, fun n =>
      written_le positive n (Nat.zero_le _)⟩⟩
  rw [some, Nat.one_le_iff_ne_zero, ne_eq, Nat.dvd_iff_mod_eq_zero]
  refine ⟨fun filled => ⟨fun none => filled ?_, fun _ => filled⟩, fun fine => fine.2 fine.1⟩
  simp [substCall, none]

theorem Honest.substCalls_iff (honest : last.Honest ops) (beyond : Nat → Char) :
    (∀ call ∈ last.substCalls beyond, call.Safe) ↔ last.HasRoom ops := by
  unfold substCalls HasRoom
  rw [honest.anti, honest.tests_grouped, Bool.not_not]
  cases last.matches_ ops with
  | false => simp
  | true =>
    cases grouped : last.usesGroup ops with
    | false => simp
    | true =>
      rw [← honest.proceed_used grouped]
      simp only [Bool.and_self, if_true, forall_mem_map, substCall_safe_iff, bne_iff_ne,
        forall_const]

end Evaluated

/-! ### An extension -/

theorem trace_all {τ : Type} {P : τ → Prop} {own : Evaluated σ → List τ} {name : Text}
    {inner : XCond → HuntState σ → Parsing σ} {inside : XCond → HuntState σ → List τ}
    {conds : List XCond} (honest : ∀ last : Evaluated σ, last.Honest ops → ∀ told ∈ own last, P told)
    (nested : ∀ xcond ∈ conds, xcond.nested ≠ [] → ∀ state, ∀ told ∈ inside xcond state, P told)
    (parsing : Parsing σ) : ∀ told ∈ ops.trace own name inner inside conds parsing, P told := by
  induction conds generalizing parsing with
  | nil => exact nofun
  | cons xcond rest ih =>
    have ih := ih fun xcond member => nested xcond (mem_cons_of_mem _ member)
    intro told member
    rw [trace] at member
    rcases mem_append.mp member with first | later
    · split at first
      · cases first
      next filled =>
        exact nested xcond mem_cons_self (by simpa using filled) _ told first
    · generalize (if xcond.nested.isEmpty = true then (_ : Parsing σ) else _) = entered at later
      split_ifs at later
      · cases later
      · exact ih _ told later
      · cases later
      · rcases mem_append.mp later with here | behind
        · have kept := @kept_evalCond _ ops name xcond (ops.datetimeCheck parsing.state.world
            xcond.times).1 entered
          cases evaluated : (ops.evalCond name xcond (ops.datetimeCheck parsing.state.world
            xcond.times).1 entered).last with
          | none =>
            rw [evaluated] at here
            cases here
          | some last =>
            rw [evaluated] at here
            rw [Parsing.Kept, evaluated] at kept
            exact honest last kept.2.1 told here
        · split at behind
          · cases behind
          · exact ih _ told behind

/-- **The buffers of an extension are safe just where the tests that its actions use match.** -/
theorem substitution_buffers (ops : DialplanOps σ) (xexten : XExten) (state : HuntState σ)
    (beyond : Nat → Char) :
    (∀ last ∈ ops.evaluationsExten xexten state, ∀ call ∈ last.substCalls beyond, call.Safe) ↔
      ∀ last ∈ ops.evaluationsExten xexten state, last.HasRoom ops := by
  refine forall₂_congr fun last member => ?_
  have nested (name : Text) (levels : Nat) : ∀ xcond state, ∀ last ∈ ops.traceNested
      (fun last => [last]) (fun _ => []) name levels xcond state, last.Honest ops := by
    induction levels with
    | zero => exact nofun
    | succ levels ih => exact fun _ _ => trace_all (by simp) (fun xcond _ _ => ih xcond) _
  have honest : last.Honest ops :=
    trace_all (by simp) (fun xcond _ _ => nested _ maxRecur xcond) _ last member
  exact honest.substCalls_iff beyond

def xorCondition : XCond :=
  .mk [] none none none none (some "xor")
    [⟨[], some "a", none, some "a"⟩, ⟨[], some "b", none, some "(c)"⟩]
    [⟨some "answer", some "x$1", [], none, none⟩] [] none []

/-- **A buffer of no bytes is written to.** -/
theorem empty_buffer_written :
    ∃ last ∈ sampleDialplan.evaluationsExten ⟨none, none, [xorCondition]⟩ ⟨(), none⟩,
      ∃ call ∈ last.substCalls fun _ => 'z', call.allocated = 0 ∧
        (call.args.written 1 start).length = 1 ∧ ¬ call.Safe :=
  ⟨_, mem_singleton_self _, _, mem_singleton_self _, rfl, rfl, fun safe =>
    absurd (show 1 ≤ 0 from safe.1) (by decide)⟩

/-! ### The indentation -/

def recurSpace : Nat := 4

/-- `MAX_RECUR_SPACE`, the size of `space`. -/
def maxRecurSpace : Nat := 100 * recurSpace

/-- What `parse_exten` writes into `space` at a level, from the first byte on. -/
def indentation (recur : Nat) : Text :=
  if recur = 0 ∨ maxRecur < recur then []
  else '|' :: (List.range recur).flatMap fun i => (List.range recurSpace).map fun k =>
    if i = recur - 1 ∧ k = recurSpace - 1 then ' ' else '-'

/-- **The writes are within `space`**, which was empty, and leave a NUL in it. -/
def Indented (recur : Nat) : Prop :=
  (indentation recur).length ≤ maxRecurSpace ∧
    ∃ i < maxRecurSpace, (indentation recur).getD i '\x00' = '\x00'

/-- At most so many levels of conditions are inside. -/
def XCond.Within : Nat → XCond → Prop
  | 0, xcond => xcond.nested = []
  | depth + 1, xcond => ∀ inner ∈ xcond.nested, inner.Within depth

/-- A condition inside a condition, so many levels deep. -/
def chained : Nat → XCond
  | 0 => .mk [] none none none none none [] [] [] none []
  | depth + 1 => .mk [] none none none none none [] [] [] none [chained depth]

theorem indented_iff (recur : Nat) : Indented recur ↔ recur ≠ maxRecur := by
  by_cases writes : recur = 0 ∨ maxRecur < recur
  · rw [Indented, indentation, if_pos writes]
    refine iff_of_true ⟨Nat.zero_le _, 0, by decide, rfl⟩ ?_
    rintro rfl
    exact absurd writes (by decide)
  · have size : (indentation recur).length = 1 + 4 * recur := by
      simp [indentation, writes, recurSpace]
      omega
    rw [Indented, size]
    unfold maxRecur at writes ⊢
    constructor
    · rintro ⟨fits, -⟩ rfl
      exact absurd fits (by decide)
    · intro other
      refine ⟨by simp [maxRecurSpace, recurSpace]; omega, 1 + 4 * recur, ?_, ?_⟩
      · simp [maxRecurSpace, recurSpace]
        omega
      · rw [getD_eq_default _ _ size.le]

section Levels

variable {name : Text}

theorem levels_within (depth : Nat) : ∀ levels ≤ maxRecur, ∀ xcond : XCond, xcond.nested ≠ [] →
    xcond.Within depth → ∀ state, ∀ recur ∈ ops.traceNested (fun _ => []) (fun recur => [recur]) name
      levels xcond state, recur + levels ≤ maxRecur + depth := by
  induction depth with
  | zero => exact fun _ _ _ filled within => absurd within filled
  | succ depth ih =>
    intro levels few xcond filled within state recur member
    cases levels with
    | zero =>
      rw [mem_singleton.mp member]
      omega
    | succ levels =>
      rcases mem_cons.mp member with rfl | inner
      · omega
      · have deeper := trace_all (P := (· + levels ≤ maxRecur + depth)) (by simp)
          (fun xcond member filled => ih levels (by omega) xcond filled (within xcond member)) _
          recur inner
        omega

theorem mem_levels_chained (depth : Nat) : ∀ levels ≤ maxRecur, depth < levels →
    ∀ state : HuntState σ, maxRecur + 1 + depth - levels ∈ ops.traceNested (fun _ => [])
      (fun recur => [recur]) name levels (chained (depth + 1)) state := by
  induction depth with
  | zero =>
    intro levels few deep state
    obtain ⟨levels, rfl⟩ := Nat.exists_eq_add_of_lt deep
    exact mem_cons.mpr (.inl (by omega))
  | succ depth ih =>
    intro levels few deep state
    obtain ⟨levels, rfl⟩ : ∃ k, levels = k + 1 := ⟨levels - 1, by omega⟩
    refine mem_append_right _ (mem_append_left _ ?_)
    have inner := ih levels (by omega) (by omega)
    rw [show maxRecur + 1 + (depth + 1) - (levels + 1) = maxRecur + 1 + depth - levels by omega]
    exact inner _

theorem chained_within {n depth : Nat} (few : n ≤ depth) : (chained n).Within depth := by
  induction depth generalizing n with
  | zero =>
    obtain rfl := Nat.le_zero.mp few
    rfl
  | succ depth ih =>
    cases n with
    | zero => exact nofun
    | succ n => exact fun inner member => mem_singleton.mp member ▸ ih (by omega)

theorem deepest_level (ops : DialplanOps σ) (state : HuntState σ) :
    maxRecur ∈ ops.levelsExten ⟨none, none, [chained maxRecur]⟩ state :=
  mem_append_right _ (mem_append_left _ (mem_levels_chained 99 maxRecur le_rfl (by decide) _))

end Levels

/-- **`parse_exten` stays in `space` exactly when** fewer than `MAX_RECUR` levels are nested. -/
theorem indentation_inside_iff (ops : DialplanOps σ) (state : HuntState σ) (depth : Nat) :
    (∀ xexten : XExten, (∀ xcond ∈ xexten.conds, xcond.Within depth) →
      ∀ recur ∈ ops.levelsExten xexten state, Indented recur) ↔ depth < maxRecur := by
  simp only [indented_iff]
  constructor
  · intro inside
    by_contra deep
    refine inside ⟨none, none, [chained maxRecur]⟩ (fun xcond member => ?_) maxRecur
      (deepest_level ops state) rfl
    rw [mem_singleton.mp member]
    exact chained_within (Nat.le_of_not_lt deep)
  · rintro shallow xexten within recur member rfl
    rcases mem_cons.mp member with outermost | inner
    · cases outermost
    · have few := trace_all (P := (· + maxRecur ≤ maxRecur + depth)) (by simp)
        (fun xcond member filled => levels_within depth maxRecur le_rfl xcond filled
          (within xcond member)) _ maxRecur inner
      omega

/-- At the last level that is allowed one byte is written behind `space`. -/
theorem deepest_indentation : ∃ recur ∈
    sampleDialplan.levelsExten ⟨none, none, [chained 100]⟩ ⟨(), none⟩, ¬ Indented recur :=
  ⟨100, deepest_level .., fun inside => (indented_iff 100).mp inside rfl⟩

end FreeSwitch
