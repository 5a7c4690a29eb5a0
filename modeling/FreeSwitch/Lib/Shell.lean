/-
**How a shell reads a line.**

The token recognition of a POSIX shell, one character at a time. A token is a word, whose characters
are each marked as quoted or not, or an operator character. An expansion (`$` or a backquote) is
not read: it stops the reader, and so does the end of the line inside quotation marks.

* `read_single`: text in single quotation marks is read as it is;
* `literal_quoted`: of a word that is all quoted, the shell expands nothing.
-/

import FreeSwitch.Lib.CString

namespace Shell

open CString List

structure Mark where
  char : Char
  quoted : Bool
deriving DecidableEq

inductive Token
  | word (marks : List Mark)
  | operator (char : Char)
deriving DecidableEq

inductive Mode
  | plain
  | escape
  | single
  | double
  | doubleEscape
  | comment
deriving DecidableEq

/-- The tokens read, the word that is being read, if there is one, and the mode. -/
structure Reader where
  tokens : List Token
  word : Option (List Mark)
  mode : Mode
deriving DecidableEq

namespace Reader

def start : Reader := ⟨[], none, .plain⟩

def delimit (r : Reader) : Reader :=
  { r with tokens := r.tokens ++ (r.word.toList.map .word), word := none }

def append (r : Reader) (char : Char) (quoted : Bool) : Reader :=
  { r with word := some (r.word.getD [] ++ [⟨char, quoted⟩]) }

def quote (r : Reader) (mode : Mode) : Reader := { r with word := some (r.word.getD []), mode := mode }

def operator (r : Reader) (char : Char) : Reader :=
  { r.delimit with tokens := r.delimit.tokens ++ [.operator char], mode := .plain }

/-- The characters of operators; one of several characters is several tokens here. -/
def isOperator (c : Char) : Bool := c ∈ ['|', '&', ';', '<', '>', '(', ')', '\n']

def take (r : Reader) (c : Char) : Option Reader :=
  match r.mode with
  | .plain =>
    if c = '\\' then some { r with mode := .escape }
    else if c = '\'' then some (r.quote .single)
    else if c = '"' then some (r.quote .double)
    else if c = '$' ∨ c = '`' then none
    else if isOperator c then some (r.operator c)
    else if c = ' ' ∨ c = '\t' then some r.delimit
    else if c = '#' ∧ r.word = none then some { r with mode := .comment }
    else some (r.append c false)
  | .escape =>
    -- a backslash joins two lines
    if c = '\n' then some { r with mode := .plain }
    else some { r.append c true with mode := .plain }
  | .single =>
    if c = '\'' then some { r with mode := .plain } else some (r.append c true)
  | .double =>
    if c = '"' then some { r with mode := .plain }
    else if c = '\\' then some { r with mode := .doubleEscape }
    else if c = '$' ∨ c = '`' then none
    else some (r.append c true)
  | .doubleEscape =>
    if c = '\n' then some { r with mode := .double }
    else if c ∈ ['$', '`', '"', '\\'] then some { r.append c true with mode := .double }
    else some { (r.append '\\' true).append c true with mode := .double }
  | .comment => if c = '\n' then some (r.operator c) else some r

def read (r : Reader) (s : Text) : Option Reader := s.foldlM take r

def finish (r : Reader) : Option (List Token) :=
  match r.mode with
  | .plain | .comment => some r.delimit.tokens
  | _ => none

end Reader

def tokens (line : Text) : Option (List Token) := (Reader.start.read line).bind Reader.finish

/-- What stands for more than itself unless quoted: patterns, home directories, assignments and
reserved words. -/
def isSpecial (c : Char) : Bool := c ∈ ['*', '?', '[', ']', '~', '=', '{', '}', '!', '%']

def literal (marks : List Mark) : Option Text :=
  if marks.any fun mark => !mark.quoted && isSpecial mark.char then none
  else some (marks.map Mark.char)

def words (line : Text) : Option (List Text) := do
  let found ← tokens line
  found.mapM fun
    | .word marks => literal marks
    | .operator _ => none

/-! ### Reading -/

section Reading

variable {r : Reader}

theorem read_append (s t : Text) : r.read (s ++ t) = (r.read s).bind fun later => later.read t :=
  foldlM_append ..

theorem read_cons (c : Char) (s : Text) : r.read (c :: s) = (r.take c).bind fun later => later.read s :=
  foldlM_cons ..

def quoted (s : Text) : List Mark := s.map (⟨·, true⟩)

theorem read_single {marks : List Mark} {found : List Token} {s : Text} (plain : '\'' ∉ s) :
    (⟨found, some marks, .single⟩ : Reader).read s =
      some ⟨found, some (marks ++ quoted s), .single⟩ := by
  induction s generalizing marks with
  | nil => simp [Reader.read, quoted]
  | cons c s ih =>
    have other : c ≠ '\'' := fun same => plain (same ▸ mem_cons_self)
    have taken : (⟨found, some marks, .single⟩ : Reader).take c =
        some ⟨found, some (marks ++ [⟨c, true⟩]), .single⟩ := by
      simp [Reader.take, other, Reader.append]
    rw [read_cons, taken, Option.bind_some, ih fun inside => plain (mem_cons_of_mem _ inside)]
    simp [quoted]

end Reading

theorem literal_quoted (s : Text) : literal (quoted s) = some s := by
  have none : ((quoted s).any fun mark => !mark.quoted && isSpecial mark.char) = false := by
    rw [any_eq_false]
    intro mark member
    obtain ⟨c, -, rfl⟩ := mem_map.mp member
    simp
  rw [literal, none]
  simp [quoted, Function.comp_def]

example : words "ls 'a b'\"c\" x\\ y # z" =
    some ["ls".toList, "a bc".toList, "x y".toList] := by decide

example : words "ls; rm x" = none := by decide

end Shell
