/-
**Conditions about the time.**

`switch_xml_std_datetime_check` goes through the attributes of an element that are about the time, and
keeps in `time_match` whether those it has come to hold. An attribute `dst` passes only where it is true
and daylight saving is in effect, and an empty one is passed over.

* `datetimeCheck_conjunction_iff`: when that is the conjunction of what the attributes say.
-/

import FreeSwitch.Dialplan.Hunt
import FreeSwitch.Utils.Schedule

namespace FreeSwitch

open CString List TimeMatch

def todCmp (exp : Text) (val : Int) : Bool :=
  let seconds (h m s : Text) : Int := strtol h * 60 * 60 + strtol m * 60 + strtol s
  match cut ':' exp with
  | (_, none) => false
  | (minh, some rest) =>
    match cut '-' rest with
    | (_, none) => false
    | (min, some rest) =>
      match cut ':' rest with
      | (_, none) => false
      | (maxh, some max) =>
        let (minm, mins) := cut ':' min
        let (maxm, maxs) := cut ':' max
        seconds minh minm (mins.getD "00") ≤ val && val < seconds maxh maxm (maxs.getD "00")

/-- `switch_time_exp_t`. -/
structure TimeExp where
  year : Int
  yday : Int
  mon : Int
  mday : Int
  wday : Int
  hour : Int
  min : Int
  sec : Int
  gmtoff : Int
  isdst : Int

structure Clock where
  lt : TimeExp
  tz : Int → TimeExp
  tzName : Text → TimeExp
  fulldateCmp : Text → Bool

/-- The arguments of `switch_xml_std_datetime_check`. -/
structure DatetimeArgs where
  attrs : List (Text × Text)
  offset : Option Int
  tzname : Option Text
  clock : Clock

abbrev DatetimeTest := Option Text × (Text → Bool)

namespace DatetimeArgs

variable (a : DatetimeArgs)

def attr (name : String) : Option Text := a.attrs.lookup name.toList

def tm : TimeExp :=
  match a.offset, a.tzname.filter (· ≠ []) with
  | some offset, _ => a.clock.tz (offset * 3600)
  | none, some tzname => a.clock.tzName tzname
  | none, none => a.clock.lt

def eoffset : Int := (a.offset.filter (· ≠ -1000)).getD (a.tm.gmtoff.tdiv 3600)

def loffset (tzoff : Text) : Int :=
  if tzoff ≠ [] ∧ isNumber tzoff ∧ atoi tzoff ≠ -1000 then atoi tzoff else a.eoffset

def mweek (tm : TimeExp) : Int :=
  let firstdow := (7 - (tm.mday - (tm.wday + 1)).tmod 7).tmod 7
  (tm.mday + firstdow + 6).fdiv 7

def tzTest : DatetimeTest := (a.attr "tz-offset", fun tzoff => a.loffset tzoff == a.eoffset)

def inEffect : Bool := decide (0 < a.clock.lt.isdst)

/-- `dst` is set only by an attribute that is not empty. -/
def dstTest : DatetimeTest := ((a.attr "dst").filter (· ≠ []), fun dst => a.inEffect && switchTrue dst)

/-- The tests behind that of `dst`, in their order. -/
def laterTests : List DatetimeTest :=
  [(a.attr "date-time", a.clock.fulldateCmp),
    (a.attr "year", (numberCmp · (a.tm.year + 1900))),
    (a.attr "yday", (numberCmp · (a.tm.yday + 1))),
    (a.attr "mon", (numberCmp · (a.tm.mon + 1))),
    (a.attr "mday", (numberCmp · a.tm.mday)),
    (a.attr "week", (numberCmp · (a.tm.yday.tdiv 7 + 1))),
    (a.attr "week", (numberCmp · (a.tm.yday.tdiv 7 + 1))),
    (a.attr "mweek", (numberCmp · (mweek a.tm))),
    (a.attr "wday", (dowCmp · (a.tm.wday + 1))),
    (a.attr "hour", (numberCmp · a.tm.hour)),
    (a.attr "minute", (numberCmp · a.tm.min)),
    (a.attr "minute-of-day", (numberCmp · (a.tm.hour * 60 + (a.tm.min + 1)))),
    (a.attr "time-of-day", (todCmp · (a.tm.hour * 60 * 60 + a.tm.min * 60 + a.tm.sec)))]

end DatetimeArgs

/-- `if (time_match && attr) time_match = test`. -/
def TimeMatch.check : TimeMatch → DatetimeTest → TimeMatch
  | .fail, _ => .fail
  | timeMatch, (none, _) => timeMatch
  | _, (some attr, test) => if test attr then .pass else .fail

def stdDatetimeCheck (a : DatetimeArgs) : TimeMatch :=
  (a.tzTest :: a.dstTest :: a.laterTests).foldl check .unset

/-- **The conjunction** of the tests whose attributes are present. -/
def conjunction (tests : List DatetimeTest) : TimeMatch :=
  bif tests.any (·.1.isSome) then bif tests.all fun t => t.1.all t.2 then .pass else .fail else .unset

/-- All tests but that of `dst`. -/
def DatetimeArgs.others (a : DatetimeArgs) : List DatetimeTest := a.tzTest :: a.laterTests

/-- What `dst` says: whether daylight saving is in effect. -/
def DatetimeArgs.dstMeant (a : DatetimeArgs) : DatetimeTest :=
  (a.attr "dst", fun dst => switchTrue dst == a.inEffect)

/-- Of the other attributes, one is there, and one does not hold. -/
def DatetimeArgs.Present (a : DatetimeArgs) : Prop := ∃ t ∈ a.others, t.1.isSome

@[inherit_doc DatetimeArgs.Present]
def DatetimeArgs.Fails (a : DatetimeArgs) : Prop := ∃ t ∈ a.others, ∃ attr ∈ t.1, t.2 attr = false

theorem foldl_check (tests : List DatetimeTest) :
    tests.foldl check .unset = conjunction tests ∧
      tests.foldl check .fail = .fail ∧
      tests.foldl check .pass = bif tests.all fun t => t.1.all t.2 then .pass else .fail := by
  induction tests with
  | nil => exact ⟨rfl, rfl, rfl⟩
  | cons t tests ih =>
    obtain ⟨unset, fail, pass⟩ := ih
    obtain ⟨attr, test⟩ := t
    cases attr with
    | none => simp [check, conjunction, unset, fail, pass]
    | some attr => cases here : test attr <;> simp [check, conjunction, fail, pass, here]

theorem conjunction_insert (first t : DatetimeTest) (tests : List DatetimeTest) :
    conjunction (first :: t :: tests) = conjunction (t :: first :: tests) := by
  simp only [conjunction, any_cons, all_cons, Bool.or_left_comm, Bool.and_left_comm]

/-- **Date and time conditions.** What `switch_xml_std_datetime_check` returns is the conjunction of what
the attributes say exactly where there is no `dst`; or one that is not empty, and daylight saving is in
effect, or the attribute true, or another attribute fails anyway; or an empty one beside another
attribute, and daylight saving is not in effect, or another attribute fails. -/
theorem datetimeCheck_conjunction_iff (a : DatetimeArgs) :
    stdDatetimeCheck a = conjunction (a.dstMeant :: a.others) ↔
      ∀ dst ∈ a.attr "dst",
        if dst = [] then a.Present ∧ (a.inEffect = false ∨ a.Fails)
        else a.inEffect = true ∨ switchTrue dst = true ∨ a.Fails := by
  have present : a.Present ↔ a.others.any (·.1.isSome) = true := any_eq_true.symm
  have fails : a.Fails ↔ (a.others.all fun t => t.1.all t.2) = false := by
    rw [all_eq_false]
    refine exists_congr fun t => and_congr_right fun _ => ?_
    cases t.1 <;> simp
  rw [present, fails, stdDatetimeCheck, (foldl_check _).1, conjunction_insert]
  change conjunction (a.dstTest :: a.others) = _ ↔ _
  simp only [conjunction, any_cons, all_cons]
  generalize (a.others.any (·.1.isSome)) = any
  generalize (a.others.all fun t => t.1.all t.2) = all
  rw [DatetimeArgs.dstTest, DatetimeArgs.dstMeant]
  cases found : a.attr "dst" with
  | none => simp
  | some dst =>
    have blank : switchTrue (some []) = false := by decide
    simp only [Option.mem_def, Option.some.injEq, forall_eq']
    cases effect : a.inEffect <;> cases true_ : switchTrue dst <;> by_cases empty : dst = [] <;>
      cases any <;> cases all <;> simp_all

/-- **`dst="false"` never passes**, also where daylight saving is not in effect. -/
theorem dst_false_fails :
    let winter : TimeExp := ⟨124, 9, 0, 10, 3, 12, 0, 0, 0, 0⟩
    let a : DatetimeArgs := ⟨[("dst", "false")], none, none,
      ⟨winter, fun _ => winter, fun _ => winter, fun _ => false⟩⟩
    a.inEffect = false ∧ stdDatetimeCheck a = .fail ∧
      conjunction (a.dstMeant :: a.others) = .pass := by
  intro winter a
  exact ⟨by decide, by decide, by decide⟩

end FreeSwitch
