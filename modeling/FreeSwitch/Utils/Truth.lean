/-
**Words and numbers.**

The tests of `switch_utils` that the settings and the headers of many modules are read with.
-/

import FreeSwitch.Lib.CString

namespace FreeSwitch

open CString

/-- `%d`. -/
def printInt (i : Int) : Text := (toString i).toList

def isNumber (s : Text) : Bool :=
  let body := match s with
    | '-' :: s => s
    | '+' :: s => s
    | s => s
  body.all fun c => c = '.' || ('0' ≤ c && c ≤ '9')

def switchTrue (expr : Option Text) : Bool :=
  expr.elim false fun s =>
    ["yes", "on", "true", "t", "enabled", "active", "allow"].any (fun word => ciEq s word.toList) ||
      isNumber s && atoi s != 0

/-- `switch_stristr(instr, str) != NULL`. -/
def stristr (instr str : Text) : Bool := (strstr (lower instr) (lower str)).isSome

end FreeSwitch
