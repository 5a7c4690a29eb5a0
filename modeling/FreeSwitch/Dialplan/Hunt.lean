/-
**The XML dialplan.**

`dialplan_hunt` goes through the extensions of a context and stops at the first one for which
`parse_exten` returns something other than zero, unless it says `continue`. `parse_exten` goes through
the conditions of one extension: it tests each, runs the actions or the anti-actions, and breaks off as
the condition's `break` says. What it returns is the variable `proceed`, which some of the tests set,
and which none of them resets.

What the functions ask of the rest of the switch is in `DialplanOps`: regular expressions, the clock,
the variables of the channel and the applications. Each may change the state of the switch.
-/

import FreeSwitch.Utils.Truth

namespace FreeSwitch

open CString

/-! ### The document -/

/-- `switch_xml_std_datetime_check`: `-1` without an attribute about time, else 0 or 1. -/
inductive TimeMatch
  | unset
  | fail
  | pass
  deriving DecidableEq, Repr

/-- An `action` or an `anti-action`. -/
structure XAction where
  application : Option Text
  data : Option Text
  txt : Text
  loop : Option Text
  inline : Option Text

/-- A `regex` of a condition. `times` are its attributes about time. -/
structure XRegex where
  times : List (Text × Text)
  field : Option Text
  expressionChild : Option Text
  expressionAttr : Option Text

/-- A `condition`. -/
inductive XCond
  | mk (times : List (Text × Text)) (field expressionChild expressionAttr break_ regex : Option Text)
    (regexes : List XRegex) (actions antiActions : List XAction) (requireNested : Option Text)
    (nested : List XCond)

namespace XCond

def times : XCond → List (Text × Text)
  | mk times _ _ _ _ _ _ _ _ _ _ => times

def field : XCond → Option Text
  | mk _ field _ _ _ _ _ _ _ _ _ => field

def expressionChild : XCond → Option Text
  | mk _ _ child _ _ _ _ _ _ _ _ => child

def expressionAttr : XCond → Option Text
  | mk _ _ _ attr _ _ _ _ _ _ _ => attr

def break_ : XCond → Option Text
  | mk _ _ _ _ break_ _ _ _ _ _ _ => break_

/-- The attribute `regex`: the condition is a group. -/
def regex : XCond → Option Text
  | mk _ _ _ _ _ regex _ _ _ _ _ => regex

def regexes : XCond → List XRegex
  | mk _ _ _ _ _ _ regexes _ _ _ _ => regexes

def actions : XCond → List XAction
  | mk _ _ _ _ _ _ _ actions _ _ _ => actions

def antiActions : XCond → List XAction
  | mk _ _ _ _ _ _ _ _ antiActions _ _ => antiActions

def requireNested : XCond → Option Text
  | mk _ _ _ _ _ _ _ _ _ requireNested _ => requireNested

def nested : XCond → List XCond
  | mk _ _ _ _ _ _ _ _ _ _ nested => nested

end XCond

/-- An `extension`. -/
structure XExten where
  name : Option Text
  continue_ : Option Text
  conds : List XCond

/-- `break_t`. -/
inductive Break
  | onTrue
  | onFalse
  | always
  | never
  deriving DecidableEq, Repr

/-- `do_break_i`. -/
def XCond.doBreak (xcond : XCond) : Break :=
  match xcond.break_ with
  | none => .onFalse
  | some break_ =>
    if ciEq break_ "on-true" then .onTrue
    else if ciEq break_ "on-false" then .onFalse
    else if ciEq break_ "always" then .always
    else if ciEq break_ "never" then .never
    else .onFalse

/-- The two flags `all` and `xor` of a group. -/
inductive RegexRule
  | any
  | all
  | xor
  deriving DecidableEq, Repr

def regexRule (rule : Text) : RegexRule :=
  if ciEq rule "all" then .all else if ciEq rule "xor" then .xor else .any

/-- The text of a child `expression`, or the attribute. -/
def expressionOf (child attr : Option Text) : Text := child.getD (attr.getD [])

def XAction.loopCount (xaction : XAction) : Nat := (xaction.loop.elim 1 atoi).toNat

/-- The text of the element, or its attribute `data`. -/
def XAction.dataText (xaction : XAction) : Text :=
  if xaction.txt.isEmpty then xaction.data.getD [] else xaction.txt

/-! ### The rest of the switch -/

/-- What the dialplan calls. A compiled expression is its text, `ovector` its numbers. -/
structure DialplanOps (σ : Type) where
  /-- `switch_xml_std_datetime_check`, in the time zone that `check_tz` has read. -/
  datetimeCheck : σ → List (Text × Text) → TimeMatch × σ
  /-- `switch_channel_expand_variables`. -/
  expandVariables : σ → Text → Text × σ
  /-- `switch_caller_get_field_by_name`. -/
  getFieldByName : σ → Text → Option Text
  /-- `switch_regex_perform`: the number of matches and the new `ovector`. -/
  regexPerform : Text → Text → List Int → Nat × List Int
  /-- `switch_channel_del_variable_prefix`. -/
  delVariablePrefix : σ → Text → σ
  /-- `switch_channel_set_variable` with `NULL`. -/
  unsetVariable : σ → Text → σ
  /-- `switch_capture_regex` into the variables of a name. -/
  captureRegex : σ → Option Text → Nat → Text → List Int → Text → σ
  /-- `switch_perform_substitution`. -/
  performSubstitution : Option Text → Nat → Text → Text → List Int → Text
  /-- `exec_app`. -/
  execApp : σ → Text → Text → σ
  /-- `caller_profile->destination_number`. -/
  destinationNumber : σ → Text
  /-- The variable `auto_hunt` of the channel. -/
  autoHunt : σ → Option Text

/-- `switch_caller_extension_t`: name, number, and the applications in their order. -/
structure CallerExtension where
  name : Text
  number : Text
  applications : List (Text × Text)
  deriving DecidableEq

structure HuntState (σ : Type) where
  world : σ
  extension : Option CallerExtension

variable {σ : Type}

/-! ### The tests of a condition -/

/-- What was kept of a `regex` with a group in its expression. -/
structure SavedRegex where
  re : Text
  expression : Text
  fieldData : Text
  proceed : Nat

/-- The variables of `parse_exten` that the tests work on; `expression` is `NULL` before the first
test. -/
structure CondTests (σ : Type) where
  world : σ
  proceed : Nat
  antiAction : Bool
  field : Option Text
  fieldData : Text
  expression : Option Text
  re : Option Text
  ovector : List Int
  saved : Option SavedRegex
  pass : Nat
  fail : Nat

variable (ops : DialplanOps σ)

/-- `field_data`: a field with a `$` is expanded, another is a field of the caller. -/
def DialplanOps.fieldData (world : σ) (field : Text) : Text × σ :=
  if '$' ∈ field then ops.expandVariables world field
  else ((ops.getFieldByName world field).getD [], world)

def DialplanOps.perform (tests : CondTests σ) (field : Text) : CondTests σ :=
  let (fieldData, world) := ops.fieldData tests.world field
  let expression := tests.expression.getD []
  let (count, ovector) := ops.regexPerform fieldData expression tests.ovector
  { tests with
    world, fieldData, ovector
    proceed := count
    re := if count = 0 then none else some expression }

def DialplanOps.begin (tests : CondTests σ) (field : Option Text) (expression : Text) :
    CondTests σ :=
  let (expression, world) := ops.expandVariables tests.world expression
  { tests with world, field, expression := some expression }

/-- The check of the time of a `regex`, and its expression. -/
def DialplanOps.beginRegex (xregex : XRegex) (tests : CondTests σ) : TimeMatch × CondTests σ :=
  let (timeMatch, world) := ops.datetimeCheck tests.world xregex.times
  let tests := { tests with world, antiAction := tests.antiAction && timeMatch != .pass }
  (timeMatch,
    ops.begin tests xregex.field (expressionOf xregex.expressionChild xregex.expressionAttr))

/-- A `regex` of a group; `true` is a `break`. -/
def DialplanOps.testRegex (rule : RegexRule) (xregex : XRegex) (tests : CondTests σ) :
    CondTests σ × Bool :=
  let (timeMatch, tests) := ops.beginRegex xregex tests
  match xregex.field with
  | some field =>
    let tests := ops.perform tests field
    if tests.proceed ≠ 0 then ({ tests with pass := tests.pass + 1 }, rule == .any)
    else ({ tests with fail := tests.fail + 1 }, rule == .all)
  | none =>
    if timeMatch = .fail then (tests, false)
    else ({ tests with pass := tests.pass + 1, proceed := 1 }, rule == .any)

def CondTests.grouped (tests : CondTests σ) : Bool :=
  tests.field.isSome && tests.expression.any (·.contains '(')

/-- `strchr` is called with `NULL`. -/
def CondTests.faults (tests : CondTests σ) : Bool := tests.field.isSome && tests.expression.isNone

def DialplanOps.keepRegex (total : Nat) (tests : CondTests σ) : CondTests σ :=
  if tests.grouped then
    let var := "DP_REGEX_MATCH_" ++ printInt total
    let world := ops.captureRegex (ops.unsetVariable tests.world var) tests.re tests.proceed
      tests.fieldData tests.ovector var
    { tests with
      world
      saved := tests.re.map fun re => ⟨re, tests.expression.getD [], tests.fieldData, tests.proceed⟩
      re := none }
  else { tests with re := none }

/-- The loop over the `regex` elements; `total` is the number of the next. -/
def DialplanOps.testRegexes (ops : DialplanOps σ) (rule : RegexRule) :
    Nat → List XRegex → CondTests σ → CondTests σ
  | _, [], tests => tests
  | total, xregex :: rest, tests =>
    match ops.testRegex rule xregex tests with
    | (tests, true) => tests
    | (tests, false) => ops.testRegexes rule (total + 1) rest (ops.keepRegex total tests)

def CondTests.groupMatches (tests : CondTests σ) : RegexRule → Bool
  | .xor => tests.pass == 1
  | .all => tests.fail == 0
  | .any => tests.pass != 0

def CondTests.restore (tests : CondTests σ) : CondTests σ :=
  match tests.saved with
  | none => tests
  | some saved =>
    { tests with
      re := some saved.re
      expression := some saved.expression
      fieldData := saved.fieldData
      field := some saved.fieldData
      proceed := saved.proceed
      saved := none }

def DialplanOps.beginGroup (tests : CondTests σ) : CondTests σ :=
  { tests with world := ops.delVariablePrefix tests.world "DP_REGEX_MATCH" }

/-- A condition with the attribute `regex`. An expanded expression or field of the last `regex` is
freed behind the loop, and read again for the actions; its text is kept here. -/
def DialplanOps.testGroup (rule : RegexRule) (regexes : List XRegex) (tests : CondTests σ) :
    CondTests σ :=
  let tests := ops.testRegexes rule 1 regexes (ops.beginGroup tests)
  ({ tests with antiAction := tests.antiAction && !tests.groupMatches rule }).restore

def DialplanOps.testPlain (timeMatch : TimeMatch) (xcond : XCond) (tests : CondTests σ) :
    CondTests σ :=
  let tests := ops.begin tests xcond.field (expressionOf xcond.expressionChild xcond.expressionAttr)
  match xcond.field with
  | some field =>
    let tests := ops.perform tests field
    { tests with antiAction := tests.antiAction && tests.proceed == 0 }
  | none => if timeMatch = .unset then { tests with antiAction := false, proceed := 1 } else tests

def CondTests.init (xcond : XCond) (timeMatch : TimeMatch) (world : σ) (proceed : Nat) : CondTests σ where
  world := world
  proceed := if timeMatch = .pass then 1 else proceed
  antiAction := timeMatch != .pass
  field := xcond.field
  fieldData := []
  expression := none
  re := none
  ovector := []
  saved := none
  pass := 0
  fail := 0

def DialplanOps.testCond (xcond : XCond) (timeMatch : TimeMatch) (world : σ) (proceed : Nat) :
    CondTests σ :=
  let tests := CondTests.init xcond timeMatch world proceed
  match xcond.regex with
  | some rule => ops.testGroup (regexRule rule) xcond.regexes tests
  | none => ops.testPlain timeMatch xcond tests

/-! ### The actions -/

variable (name : Text)

/-- `switch_caller_extension_new`, where there is no extension yet. -/
def DialplanOps.ensureExtension (state : HuntState σ) : HuntState σ :=
  match state.extension with
  | some _ => state
  | none => { state with extension := some ⟨name, ops.destinationNumber state.world, []⟩ }

def DialplanOps.runOnce (xaction : XAction) (data : Text) (state : HuntState σ) : HuntState σ :=
  let application := xaction.application.getD []
  if switchTrue (some (xaction.inline.getD [])) then
    { state with world := ops.execApp state.world application data }
  else
    { state with extension := state.extension.map fun extension =>
        { extension with applications := extension.applications ++ [(application, data)] } }

def DialplanOps.runAction (xaction : XAction) (data : Text) (state : HuntState σ) : HuntState σ :=
  (ops.runOnce xaction data)^[xaction.loopCount] (ops.ensureExtension name state)

def DialplanOps.runActions (tests : CondTests σ) (actions : List XAction) (state : HuntState σ) :
    HuntState σ :=
  let world := if tests.grouped then
      ops.captureRegex (ops.unsetVariable state.world "DP_MATCH") tests.re tests.proceed
        tests.fieldData tests.ovector "DP_MATCH"
    else state.world
  actions.foldl (fun state xaction =>
    let data := if tests.grouped then
        ops.performSubstitution tests.re tests.proceed xaction.dataText tests.fieldData tests.ovector
      else xaction.dataText
    ops.runAction name xaction data state) { state with world }

def DialplanOps.runAntiActions (antiActions : List XAction) (state : HuntState σ) : HuntState σ :=
  antiActions.foldl (fun state xaction => ops.runAction name xaction xaction.dataText state) state

/-! ### `parse_exten` and `dialplan_hunt` -/

/-- An evaluated condition: `proceed` and the switch before, what the clock said and what the tests
left. -/
structure Evaluated (σ : Type) where
  cond : XCond
  before : Nat
  world : σ
  timeMatch : TimeMatch
  tests : CondTests σ

/-- `parse_exten` at some point; `last` is the condition evaluated last, and `fault` says that it has
crashed there. -/
structure Parsing (σ : Type) where
  state : HuntState σ
  proceed : Nat
  last : Option (Evaluated σ)
  fault : Bool

def DialplanOps.evalCond (xcond : XCond) (timeMatch : TimeMatch) (parsing : Parsing σ) :
    Parsing σ :=
  let tests := ops.testCond xcond timeMatch parsing.state.world parsing.proceed
  let state := { parsing.state with world := tests.world }
  let last := some ⟨xcond, parsing.proceed, parsing.state.world, timeMatch, tests⟩
  if tests.antiAction then
    { state := ops.runAntiActions name xcond.antiActions state
      proceed := if xcond.antiActions.isEmpty then tests.proceed else 1
      last
      fault := false }
  else
    { state := if tests.faults then state else ops.runActions name tests xcond.actions state
      proceed := tests.proceed
      last
      fault := tests.faults }

def Break.breaks (doBreak : Break) (antiAction : Bool) : Bool :=
  match doBreak with
  | .onTrue => !antiAction
  | .onFalse => antiAction
  | .always => true
  | .never => false

/-- The loop over the conditions, where `inner` parses those inside a condition. -/
def DialplanOps.parseConds (ops : DialplanOps σ) (name : Text)
    (inner : XCond → HuntState σ → Parsing σ) : List XCond → Parsing σ → Parsing σ
  | [], parsing => parsing
  | xcond :: rest, parsing =>
    let (timeMatch, world) := ops.datetimeCheck parsing.state.world xcond.times
    let parsing := { parsing with state := { parsing.state with world } }
    let parsing := if xcond.nested.isEmpty then parsing else
      { parsing with
        state := (inner xcond parsing.state).state
        proceed := (inner xcond parsing.state).proceed
        fault := (inner xcond parsing.state).fault }
    if parsing.fault then parsing
    else if !xcond.nested.isEmpty && parsing.proceed == 0 then
      if xcond.doBreak = .never then ops.parseConds name inner rest parsing else parsing
    else
      let parsing := ops.evalCond name xcond timeMatch parsing
      let antiAction := parsing.last.elim false fun last => last.tests.antiAction
      if parsing.fault || xcond.doBreak.breaks antiAction then parsing
      else ops.parseConds name inner rest parsing

def maxRecur : Nat := 100

/-- `parse_exten` for the conditions inside a condition, with so many levels left. -/
def DialplanOps.parseNested (ops : DialplanOps σ) (name : Text) :
    Nat → XCond → HuntState σ → Parsing σ
  | 0, _, state => ⟨state, 0, none, false⟩
  | levels + 1, xcond, state =>
    -- `nbuf` has 128 bytes
    let recurName := snprintf 128 (name ++ "_recur_" ++ printInt (maxRecur - levels))
    let parsed := ops.parseConds recurName (ops.parseNested name levels) xcond.nested
      ⟨state, 0, none, false⟩
    let reqNest := xcond.requireNested.elim true fun value => switchTrue (some value)
    if reqNest then parsed else { parsed with proceed := 1 }

/-- **`parse_exten`** for an extension. -/
def DialplanOps.parseExten (xexten : XExten) (state : HuntState σ) : Parsing σ :=
  let name := xexten.name.getD "UNKNOWN"
  ops.parseConds name (ops.parseNested name maxRecur) xexten.conds ⟨state, 0, none, false⟩

/-- An extension that the hunt has come to, and whether it has stopped there. -/
structure HuntVisit (σ : Type) where
  exten : XExten
  parsed : Parsing σ
  stopped : Bool

/-- The loop of `dialplan_hunt`. -/
def DialplanOps.huntFrom (ops : DialplanOps σ) :
    List XExten → HuntState σ → List (HuntVisit σ) × HuntState σ
  | [], state => ([], state)
  | xexten :: rest, state =>
    let parsed := ops.parseExten xexten state
    if parsed.fault then ([⟨xexten, parsed, false⟩], parsed.state)
    else if parsed.proceed ≠ 0 && !switchTrue xexten.continue_ then
      ([⟨xexten, parsed, true⟩], parsed.state)
    else
      let (visits, state) := ops.huntFrom rest parsed.state
      (⟨xexten, parsed, false⟩ :: visits, state)

/-- With `auto_hunt` the hunt begins at the extension named by the number. -/
def DialplanOps.huntStart (world : σ) (extens : List XExten) : List XExten :=
  let named := extens.dropWhile fun xexten =>
    !xexten.name.elim false fun name => ciEq name (ops.destinationNumber world)
  if switchTrue (ops.autoHunt world) && !named.isEmpty then named else extens

/-- **`dialplan_hunt`**, for the extensions of the context. -/
def DialplanOps.dialplanHunt (extens : List XExten) (world : σ) :
    List (HuntVisit σ) × HuntState σ :=
  ops.huntFrom (ops.huntStart world extens) ⟨world, none⟩

end FreeSwitch
