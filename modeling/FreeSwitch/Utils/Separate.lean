/-
**`switch_separate_string`.**

The function cuts a text into pieces at a delimiter, with quotation marks and escapes, and cleans
every piece afterwards. It fills an array: when the array is full the last piece is all that is left
of the text. A backslash at the very end makes it step over the end of the text, which is `none`
here.

* `separateString_length`, `separateString_none`: the array is never overfilled, and the text is
  overrun only where a backslash ends it.
-/

import FreeSwitch.Lib.CString

namespace FreeSwitch

open CString List Option

/-! ### Cleaning a piece -/

def unescapeChar : Char → Char
  | 'n' => '\n'
  | 'r' => '\r'
  | 't' => '\t'
  | 's' => ' '
  | c => c

/-- What a backslash and `e` stand for, if they stand for one character. -/
def escapedChar (delim : Option Char) (e : Char) : Option Char :=
  if e = '\'' ∨ e = '"' ∨ delim = some e ∨ e = '\\' then some e
  else if unescapeChar e ≠ e then some (unescapeChar e)
  else none

/-- The loop of `cleanup_separated_string`, which has written `dest`; `stop` is its `end`, the
length that is kept. -/
def cleanupFrom (delim : Option Char) : Text → Bool → Text → Nat → Text
  | [], _, dest, stop => dest.take stop
  | '\\' :: e :: rest, insideQuotes, dest, _ =>
    match escapedChar delim e with
    | some c => cleanupFrom delim rest insideQuotes (dest ++ [c]) (dest.length + 1)
    | none => cleanupFrom delim (e :: rest) insideQuotes (dest ++ ['\\']) (dest.length + 1)
  | c :: rest, insideQuotes, dest, stop =>
    if c = '\'' ∧ (insideQuotes = true ∨ '\'' ∈ rest) then
      cleanupFrom delim rest (!insideQuotes) dest (if insideQuotes then stop else dest.length)
    else
      cleanupFrom delim rest insideQuotes (dest ++ [c])
        (if c ≠ ' ' ∨ insideQuotes = true then dest.length + 1 else stop)

/-- `cleanup_separated_string`; without a delimiter for its `delim` of 0. -/
def cleanupSeparatedString (delim : Option Char) (str : Text) : Text :=
  cleanupFrom delim (skipSpaces str) false [] 0

/-! ### Cutting the text -/

/-- The text up to the next delimiter, and behind it. A quotation mark counts when it is the second
of two or another follows, and always if `lone`. -/
def findDelim (lone : Bool) (delim : Char) : Bool → Text → Option (Text × Option Text)
  | _, [] => some ([], none)
  | _, ['\\'] => none
  | insideQuotes, '\\' :: c :: rest =>
    (findDelim lone delim insideQuotes rest).map fun found => ('\\' :: c :: found.1, found.2)
  | insideQuotes, c :: rest =>
    if c = '\'' ∧ (lone = true ∨ insideQuotes = true ∨ '\'' ∈ rest) then
      (findDelim lone delim (!insideQuotes) rest).map fun found => (c :: found.1, found.2)
    else if c = delim ∧ insideQuotes = false then some ([], some rest)
    else (findDelim lone delim insideQuotes rest).map fun found => (c :: found.1, found.2)

/-- The loop that fills an array of `arraylen` places; `next` cuts a piece off. -/
def pieces (next : Text → Option (Text × Option Text)) : (arraylen : Nat) → Text →
    Option (List Text)
  | 0, _ => some []
  | _, [] => some []
  -- the loop ends with the last place, before it looks for a delimiter
  | 1, ptr => some [ptr]
  | room + 2, ptr =>
    match next ptr with
    | none => none
    | some (piece, none) => some [piece]
    | some (piece, some rest) => (pieces next (room + 1) rest).map (piece :: ·)

/-- `separate_string_char_delim` before the cleaning. -/
def charPieces (delim : Char) : Nat → Text → Option (List Text) :=
  pieces (findDelim false delim false)

/-- `separate_string_blank_delim` before the cleaning: it skips the blanks before a piece, which
stay in it, and those behind. -/
def blankPieces : Nat → Text → Option (List Text) :=
  pieces fun ptr => (findDelim true ' ' false (skipSpaces ptr)).map fun found =>
    (ptr.takeWhile (· = ' ') ++ found.1, found.2.map skipSpaces)

def separateAt (buf : Text) (delim : Char) (arraylen : Nat) : Option (List Text) :=
  if delim = ' ' then (blankPieces arraylen buf).map (List.map (cleanupSeparatedString none))
  else (charPieces delim arraylen buf).map (List.map (cleanupSeparatedString (some delim)))

/-- `switch_separate_string`: a text that starts with `^^` brings its own delimiter. -/
def separateString (buf : Text) (delim : Char) (arraylen : Nat) : Option (List Text) :=
  match buf with
  | '^' :: '^' :: own :: c :: rest => separateAt (c :: rest) own arraylen
  | _ => separateAt buf delim arraylen

/-! ### The array -/

variable {delim : Char} {found : List Text} {arraylen : Nat} {buf : Text}

theorem pieces_length {next : Text → Option (Text × Option Text)} {ptr : Text}
    (runs : pieces next arraylen ptr = some found) :
    found.length ≤ arraylen := by
  fun_induction pieces next arraylen ptr generalizing found with
  | case1 | case2 =>
    obtain rfl := Option.some.inj runs
    exact Nat.zero_le _
  | case3 ptr =>
    obtain rfl := Option.some.inj runs
    exact le_rfl
  | case4 => cases runs
  | case5 room ptr _ piece =>
    obtain rfl := Option.some.inj runs
    exact Nat.succ_le_succ (Nat.zero_le _)
  | case6 room ptr _ piece rest _ ih =>
    obtain ⟨tail, more, rfl⟩ := Option.map_eq_some_iff.mp runs
    exact Nat.succ_le_succ (ih more)

theorem separateAt_length (runs : separateAt buf delim arraylen = some found) :
    found.length ≤ arraylen := by
  unfold separateAt at runs
  split at runs
  all_goals
    obtain ⟨raw, cutHere, rfl⟩ := Option.map_eq_some_iff.mp runs
    simpa using pieces_length cutHere

theorem separateString_length (runs : separateString buf delim arraylen = some found) :
    found.length ≤ arraylen := by
  unfold separateString at runs
  split at runs <;> exact separateAt_length runs

example : separateString "a, 'b,c' ,\\,d" ',' 32 =
    some ["a".toList, "b,c".toList, ",d".toList] := by decide

/-! ### The end of the text -/

section Over

variable {lone insideQuotes : Bool} {delim : Char} {s : Text}

theorem findDelim_none (overrun : findDelim lone delim insideQuotes s = none) : ['\\'] <:+ s := by
  fun_induction findDelim lone delim insideQuotes s with
  | case1 => cases overrun
  | case2 => exact suffix_rfl
  | case3 insideQuotes c rest ih =>
    have behind := ih (map_eq_none_iff.mp overrun)
    exact behind.trans ((suffix_cons _ _).trans (suffix_cons _ _))
  | case4 insideQuotes c rest _ _ _ ih =>
    exact (ih (map_eq_none_iff.mp overrun)).trans (suffix_cons _ _)
  | case5 => cases overrun
  | case6 insideQuotes c rest _ _ _ _ ih =>
    exact (ih (map_eq_none_iff.mp overrun)).trans (suffix_cons _ _)

theorem findDelim_rest {piece rest : Text}
    (found : findDelim lone delim insideQuotes s = some (piece, some rest)) : rest <:+ s := by
  fun_induction findDelim lone delim insideQuotes s generalizing piece with
  | case1 => cases found
  | case2 => cases found
  | case3 insideQuotes c behind ih =>
    obtain ⟨⟨_, _⟩, more, shape⟩ := map_eq_some_iff.mp found
    cases shape
    exact (ih more).trans ((suffix_cons _ _).trans (suffix_cons _ _))
  | case4 insideQuotes c behind _ _ _ ih =>
    obtain ⟨⟨_, _⟩, more, shape⟩ := map_eq_some_iff.mp found
    cases shape
    exact (ih more).trans (suffix_cons _ _)
  | case5 insideQuotes c behind =>
    cases found
    exact suffix_cons _ _
  | case6 insideQuotes c behind _ _ _ _ ih =>
    obtain ⟨⟨_, _⟩, more, shape⟩ := map_eq_some_iff.mp found
    cases shape
    exact (ih more).trans (suffix_cons _ _)

theorem pieces_none {next : Text → Option (Text × Option Text)}
    (overrun : ∀ s, next s = none → ['\\'] <:+ s)
    (behind : ∀ s piece rest, next s = some (piece, some rest) → rest <:+ s)
    {ptr : Text} (runs : pieces next arraylen ptr = none) : ['\\'] <:+ ptr := by
  fun_induction pieces next arraylen ptr with
  | case1 | case2 | case3 | case5 => cases runs
  | case4 room ptr _ nothing => exact overrun _ nothing
  | case6 room ptr _ piece rest found ih =>
    exact (ih (map_eq_none_iff.mp runs)).trans (behind _ _ _ found)

theorem separateAt_none (runs : separateAt s delim arraylen = none) :
    ['\\'] <:+ s := by
  have blanks : ∀ s : Text, skipSpaces s <:+ s := fun s => dropWhile_suffix _
  unfold separateAt at runs
  split at runs
  · refine pieces_none (fun s overrun => ?_) (fun s piece rest found => ?_)
      (map_eq_none_iff.mp runs)
    · exact (findDelim_none (map_eq_none_iff.mp overrun)).trans (blanks s)
    · obtain ⟨⟨_, _ | behind⟩, more, shape⟩ := map_eq_some_iff.mp found
      · cases shape
      · cases shape
        exact (blanks behind).trans ((findDelim_rest more).trans (blanks s))
  · exact pieces_none (fun s overrun => findDelim_none overrun)
      (fun s piece rest found => findDelim_rest found) (map_eq_none_iff.mp runs)

end Over

theorem separateString_none (runs : separateString buf delim arraylen = none) : ['\\'] <:+ buf := by
  unfold separateString at runs
  split at runs
  · exact (separateAt_none runs).trans
      ((suffix_cons _ _).trans ((suffix_cons _ _).trans (suffix_cons _ _)))
  · exact separateAt_none runs

end FreeSwitch
