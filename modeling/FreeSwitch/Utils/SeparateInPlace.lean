/-
**`switch_separate_string` on its buffer.**

The function works in place: a first loop writes NULs over the delimiters and stores pointers to the
pieces, and a second one cleans every piece where it is. Here every byte that is read or written is
checked to be one of the string or its NUL, the `len` bytes from index 0 on.
-/

import FreeSwitch.Lib.StringMemory
import FreeSwitch.Utils.Separate

namespace FreeSwitch

open CString Fallible Function List StringMemory

/-! ### The two loops that cut -/

/-- The states of `separate_string_char_delim`. -/
inductive CharState
  | start
  | findDelim
deriving DecidableEq

/-- The states of `separate_string_blank_delim`. -/
inductive BlankState
  | start
  | skipInitialSpace
  | findDelim
  | skipEndingSpace
deriving DecidableEq

def CharState.rank : CharState → Nat
  | .start => 1
  | .findDelim => 0

def BlankState.rank : BlankState → Nat
  | .skipEndingSpace => 3
  | .start => 2
  | .skipInitialSpace => 1
  | .findDelim => 0

/-- The variables of the loops; `array` are the `count` pointers stored so far. -/
structure Tokenizer (σ : Type) where
  mem : Memory
  ptr : Nat
  state : σ
  insideQuotes : Bool
  array : List Nat

section Loops

variable (len : Nat)

/-- A quotation mark at `ptr` counts if it is the second of two, or another follows. -/
def quoteCounts (mem : Memory) (ptr : Nat) (insideQuotes : Bool) : Except Outside Bool :=
  if mem ptr = '\'' then
    if insideQuotes then .ok true else hasFrom len mem '\'' (ptr + 1)
  else .ok false

/-- The loop of `separate_string_char_delim`. -/
def charDelimLoop (delim : Char) (arraylen : Nat) (t : Tokenizer CharState) :
    Except Outside (Tokenizer CharState) :=
  if t.ptr < len then
    if t.mem t.ptr = nul ∨ arraylen ≤ t.array.length then .ok t
    else match _state : t.state with
      | .start =>
        charDelimLoop delim arraylen { t with array := t.array ++ [t.ptr], state := .findDelim }
      | .findDelim =>
        if t.mem t.ptr = '\\' then charDelimLoop delim arraylen { t with ptr := t.ptr + 2 }
        else match quoteCounts len t.mem t.ptr t.insideQuotes with
          | .error outside => .error outside
          | .ok true =>
            charDelimLoop delim arraylen
              { t with insideQuotes := !t.insideQuotes, ptr := t.ptr + 1 }
          | .ok false =>
            if t.mem t.ptr = delim ∧ t.insideQuotes = false then
              charDelimLoop delim arraylen
                { t with mem := update t.mem t.ptr nul, state := .start, ptr := t.ptr + 1 }
            else charDelimLoop delim arraylen { t with ptr := t.ptr + 1 }
  else .error ⟨t.ptr⟩
termination_by 2 * (len - t.ptr) + t.state.rank
decreasing_by all_goals simp only [_state, CharState.rank]; omega

/-- The loop of `separate_string_blank_delim`. -/
def blankDelimLoop (arraylen : Nat) (t : Tokenizer BlankState) :
    Except Outside (Tokenizer BlankState) :=
  if t.ptr < len then
    if t.mem t.ptr = nul ∨ arraylen ≤ t.array.length then .ok t
    else match _state : t.state with
      | .start =>
        blankDelimLoop arraylen
          { t with array := t.array ++ [t.ptr], state := .skipInitialSpace }
      | .skipInitialSpace =>
        if t.mem t.ptr = ' ' then blankDelimLoop arraylen { t with ptr := t.ptr + 1 }
        else blankDelimLoop arraylen { t with state := .findDelim }
      | .findDelim =>
        if t.mem t.ptr = '\\' then blankDelimLoop arraylen { t with ptr := t.ptr + 2 }
        else if t.mem t.ptr = '\'' then
          blankDelimLoop arraylen { t with insideQuotes := !t.insideQuotes, ptr := t.ptr + 1 }
        else if t.mem t.ptr = ' ' ∧ t.insideQuotes = false then
          blankDelimLoop arraylen
            { t with
              mem := update t.mem t.ptr nul, state := .skipEndingSpace, ptr := t.ptr + 1 }
        else blankDelimLoop arraylen { t with ptr := t.ptr + 1 }
      | .skipEndingSpace =>
        if t.mem t.ptr = ' ' then blankDelimLoop arraylen { t with ptr := t.ptr + 1 }
        else blankDelimLoop arraylen { t with state := .start }
  else .error ⟨t.ptr⟩
termination_by 4 * (len - t.ptr) + t.state.rank
decreasing_by all_goals simp only [_state, BlankState.rank]; omega

/-! ### Cleaning in place -/

/-- The variables of the loop of `cleanup_separated_string`. -/
structure Cleaner where
  mem : Memory
  ptr : Nat
  dest : Nat
  stop : Option Nat
  insideQuotes : Bool

/-- The loop of `cleanup_separated_string`, `stop` for its `end`. -/
def cleanupLoop (delim : Option Char) (k : Cleaner) : Except Outside Cleaner := do
  if k.ptr < len then
    if k.mem k.ptr = nul then return k
    else if k.mem k.ptr = '\\' then
      let e ← load len k.mem (k.ptr + 1)
      match escapedChar delim e with
      | some c =>
        let mem ← store len k.mem k.dest c
        cleanupLoop delim
          { k with mem := mem, ptr := k.ptr + 2, dest := k.dest + 1, stop := some (k.dest + 1) }
      | none =>
        let mem ← store len k.mem k.dest '\\'
        cleanupLoop delim
          { k with mem := mem, ptr := k.ptr + 1, dest := k.dest + 1, stop := some (k.dest + 1) }
    else
      let counts ← quoteCounts len k.mem k.ptr k.insideQuotes
      if counts then
        cleanupLoop delim
          { k with
            ptr := k.ptr + 1, insideQuotes := !k.insideQuotes,
            stop := if k.insideQuotes then k.stop else some k.dest }
      else
        let mem ← store len k.mem k.dest (k.mem k.ptr)
        cleanupLoop delim
          { k with
            mem := mem, ptr := k.ptr + 1, dest := k.dest + 1,
            stop := if k.mem k.ptr ≠ ' ' ∨ k.insideQuotes then some (k.dest + 1) else k.stop }
  else .error ⟨k.ptr⟩
termination_by len - k.ptr

/-- `for (ptr = str; *ptr == ' '; ++ptr)`. -/
def skipBlanksAt (mem : Memory) (ptr : Nat) : Except Outside Nat :=
  if ptr < len then
    if mem ptr = ' ' then skipBlanksAt mem (ptr + 1) else .ok ptr
  else .error ⟨ptr⟩
termination_by len - ptr

/-- `if (end) *end = '\0'`. -/
def endCleanup (k : Cleaner) : Except Outside Memory :=
  match k.stop with
  | some stop => store len k.mem stop nul
  | none => .ok k.mem

/-- `cleanup_separated_string`: the memory and the pointer it returns. -/
def cleanupInPlace (delim : Option Char) (mem : Memory) (str : Nat) :
    Except Outside (Memory × Nat) := do
  let start ← skipBlanksAt len mem str
  let k ← cleanupLoop len delim ⟨mem, start, start, none, false⟩
  let mem ← endCleanup len k
  return (mem, start)

/-- `for (i = 0; i < count; ++i) array[i] = cleanup_separated_string(array[i], delim)`. -/
def cleanupAll (delim : Option Char) (mem : Memory) : List Nat → Except Outside (Memory × List Nat)
  | [] => .ok (mem, [])
  | str :: array => do
    let (mem, start) ← cleanupInPlace len delim mem str
    let (mem, rest) ← cleanupAll delim mem array
    return (mem, start :: rest)

/-! ### The function -/

/-- `separate_string_char_delim`; a `delim` of 0 is none for the cleaning. -/
def separateCharDelim (mem : Memory) (buf : Nat) (delim : Char) (arraylen : Nat) :
    Except Outside (Memory × List Nat) := do
  let t ← charDelimLoop len delim arraylen ⟨mem, buf, .start, false, []⟩
  cleanupAll len (if delim = nul then none else some delim) t.mem t.array

/-- `separate_string_blank_delim`. -/
def separateBlankDelim (mem : Memory) (buf : Nat) (arraylen : Nat) :
    Except Outside (Memory × List Nat) := do
  let t ← blankDelimLoop len arraylen ⟨mem, buf, .start, false, []⟩
  cleanupAll len none t.mem t.array

/-- The test for `^^` and a delimiter with something behind: where the text begins, and the
delimiter. -/
def ownDelim (mem : Memory) (buf : Nat) (delim : Char) : Except Outside (Nat × Char) := do
  if (← load len mem buf) ≠ '^' then return (buf, delim)
  if (← load len mem (buf + 1)) ≠ '^' then return (buf, delim)
  let own ← load len mem (buf + 2)
  if own = nul then return (buf, delim)
  if (← load len mem (buf + 3)) = nul then return (buf, delim)
  return (buf + 3, own)

/-- `switch_separate_string`: the memory behind it and the pointers in `array`. -/
def separateInPlace (mem : Memory) (buf : Nat) (delim : Char) (arraylen : Nat) :
    Except Outside (Memory × List Nat) := do
  if arraylen = 0 then return (mem, [])
  let (buf, delim) ← ownDelim len mem buf delim
  if delim = ' ' then separateBlankDelim len mem buf arraylen
  else separateCharDelim len mem buf delim arraylen

end Loops

/-! ### The quotation marks and the blanks -/

section Reading

variable {len ptr : Nat} {mem : Memory} {s : Text}

theorem quoteCounts_eq {c : Char} (holds : Holds mem ptr (c :: s))
    (inside : ptr + s.length + 1 < len) (insideQuotes : Bool) :
    quoteCounts len mem ptr insideQuotes =
      .ok (decide (c = '\'' ∧ (insideQuotes = true ∨ '\'' ∈ s))) := by
  obtain ⟨here, -, later⟩ := holds
  have found : hasFrom len mem '\'' (ptr + 1) = .ok (decide ('\'' ∈ s)) :=
    hasFrom_holds (by decide) later (by omega)
  rw [quoteCounts, here]
  by_cases mark : c = '\''
  · rw [if_pos mark]
    cases insideQuotes with
    | true => simp [mark]
    | false =>
      rw [if_neg Bool.false_ne_true, found]
      simp [mark]
  · rw [if_neg mark]
    simp [mark]

theorem skipBlanksAt_eq (holds : Holds mem ptr s) (inside : ptr + s.length < len) :
    skipBlanksAt len mem ptr = .ok (ptr + (s.takeWhile (· = ' ')).length) := by
  induction s generalizing ptr with
  | nil =>
    have ends : mem ptr = nul := holds
    rw [skipBlanksAt, if_pos (by simpa using inside), if_neg (by rw [ends]; decide)]
    rfl
  | cons c s ih =>
    obtain ⟨here, -, later⟩ := holds
    rw [length_cons] at inside
    rw [skipBlanksAt, if_pos (by omega), here]
    by_cases blank : c = ' '
    · rw [if_pos blank, ih later (by omega), takeWhile_cons_of_pos (by simpa using blank),
        length_cons]
      congr 1
      omega
    · rw [if_neg blank, takeWhile_cons_of_neg (by simpa using blank)]
      rfl

theorem blanks_append (s : Text) : s.takeWhile (· = ' ') ++ skipSpaces s = s :=
  takeWhile_append_dropWhile

theorem skipSpaces_head (s : Text) : (skipSpaces s).head? ≠ some ' ' := by
  intro blank
  have fails := head?_dropWhile_not (fun c => decide (c = ' ')) s
  rw [skipSpaces] at blank
  rw [blank] at fails
  simp at fails

theorem holds_skipSpaces (holds : Holds mem ptr s) :
    Holds mem (ptr + (s.takeWhile (· = ' ')).length) (skipSpaces s) := by
  refine Holds.behind ?_
  rwa [blanks_append]

end Reading

/-! ### Cleaning a piece in place -/

theorem cleanupFrom_length (delim : Option Char) (s : Text) (q : Bool) (dest : Text) (stop : Nat) :
    (cleanupFrom delim s q dest stop).length ≤ dest.length + s.length := by
  fun_induction cleanupFrom delim s q dest stop with
  | case1 q dest stop => simp
  | case2 e rest q dest stop c escaped ih | case3 e rest q dest stop escaped ih
  | case4 c rest q dest stop whole counts ih | case5 c rest q dest stop whole plain ih =>
    simp only [length_append, length_cons, length_nil] at ih ⊢
    omega

section Cleaning

variable {len : Nat} {delim : Option Char}

theorem escapedChar_ne_nul {e c : Char} (byte : e ≠ nul) (escaped : escapedChar delim e = some c) :
    c ≠ nul := by
  unfold escapedChar at escaped
  split at escaped
  · cases escaped
    exact byte
  · split at escaped
    · cases escaped
      unfold unescapeChar
      split
      · decide
      · decide
      · decide
      · decide
      · exact byte
    · cases escaped

theorem escapedChar_nul (real : delim ≠ some nul) : escapedChar delim nul = none := by
  have first : ¬ (nul = '\'' ∨ nul = '"' ∨ delim = some nul ∨ nul = '\\') := by
    simp only [not_or]
    exact ⟨by decide, by decide, real, by decide⟩
  rw [escapedChar, if_neg first, if_neg (by decide)]

/-- The cleaner has written `dest` from `start` on, of which `stop` bytes are kept, and what is left
to read is behind. Before it has anything to keep it has not moved. -/
structure Cleaning (start : Nat) (s dest : Text) (stop : Nat) (k : Cleaner) : Prop where
  rest : Holds k.mem k.ptr s
  written : Filled k.mem start dest
  place : k.dest = start + dest.length
  behind : k.dest ≤ k.ptr
  kept : k.stop = some (start + stop) ∧ stop ≤ dest.length ∨
    k.stop = none ∧ stop = 0 ∧ dest = [] ∧ k.ptr = start ∧ k.insideQuotes = false ∧
      s.head? ≠ some ' '

section Passes

variable {start stop : Nat} {s dest : Text} {k : Cleaner}

variable {q : Bool} {c : Char}

theorem Cleaning.write {front : Text} {kept : Nat}
    (cleaning : Cleaning start (front ++ s) dest stop k) (reads : front ≠ []) (byte : c ≠ nul)
    (more : kept ≤ dest.length + 1) :
    Cleaning start s (dest ++ [c]) kept
      { k with
        mem := update k.mem k.dest c, ptr := k.ptr + front.length, dest := k.dest + 1,
        stop := some (start + kept) } := by
  have size : 0 < front.length := length_pos_iff.mpr reads
  have behind := cleaning.behind
  refine ⟨?_, ?_, ?_, ?_, .inl ⟨rfl, ?_⟩⟩
  · exact cleaning.rest.behind.store c (.inl (by omega))
  · have written := cleaning.written.concat byte
    rwa [← cleaning.place] at written
  · rw [cleaning.place, length_append]
    rfl
  · show k.dest + 1 ≤ k.ptr + front.length
    omega
  · rw [length_append]
    exact more

theorem Cleaning.quote (cleaning : Cleaning start (c :: s) dest stop k)
    (quotes : k.insideQuotes = q) :
    Cleaning start s dest (if q then stop else dest.length)
      { k with
        ptr := k.ptr + 1, insideQuotes := !k.insideQuotes,
        stop := if k.insideQuotes then k.stop else some k.dest } := by
  subst quotes
  have behind := cleaning.behind
  refine ⟨cleaning.rest.2.2, cleaning.written, cleaning.place, by show k.dest ≤ k.ptr + 1; omega,
    .inl ?_⟩
  dsimp only
  cases open' : k.insideQuotes with
  | true =>
    rcases cleaning.kept with kept | ⟨-, -, -, -, closed, -⟩
    · exact kept
    · rw [open'] at closed
      cases closed
  | false => exact ⟨by rw [cleaning.place]; rfl, le_rfl⟩

theorem Cleaning.stops (cleaning : Cleaning start (c :: s) dest stop k)
    (quotes : k.insideQuotes = q) :
    (if c ≠ ' ' ∨ k.insideQuotes = true then some (k.dest + 1) else k.stop) =
        some (start + if c ≠ ' ' ∨ q = true then dest.length + 1 else stop) ∧
      (if c ≠ ' ' ∨ q = true then dest.length + 1 else stop) ≤ dest.length + 1 := by
  subst quotes
  by_cases keeps : c ≠ ' ' ∨ k.insideQuotes = true
  · rw [if_pos keeps, if_pos keeps, cleaning.place]
    exact ⟨rfl, le_rfl⟩
  · rw [if_neg keeps, if_neg keeps]
    rcases cleaning.kept with ⟨kept, within⟩ | ⟨-, -, -, -, -, notBlank⟩
    · exact ⟨kept, Nat.le_succ_of_le within⟩
    · exact absurd (.inl fun blank => notBlank (congrArg some blank)) keeps

theorem cleanupLoop_end (cleaning : Cleaning start [] dest stop k) (inside : k.ptr < len) :
    cleanupLoop len delim k = .ok k := by
  have ends : k.mem k.ptr = nul := cleaning.rest
  rw [cleanupLoop, if_pos inside, if_pos ends]
  rfl

theorem cleanupLoop_escaped {e : Char} (cleaning : Cleaning start ('\\' :: e :: s) dest stop k)
    (inside : k.ptr + s.length + 2 < len) (escaped : escapedChar delim e = some c) :
    cleanupLoop len delim k =
      cleanupLoop len delim
        { k with
          mem := update k.mem k.dest c, ptr := k.ptr + 2, dest := k.dest + 1,
          stop := some (k.dest + 1) } := by
  obtain ⟨here, -, next, -, -⟩ := cleaning.rest
  have behind := cleaning.behind
  rw [cleanupLoop, if_pos (by omega), here, if_neg (by decide), if_pos rfl,
    load_eq (show k.ptr + 1 < len by omega), next]
  simp only [ok_bind, escaped]
  rw [store_eq (by omega)]
  rfl

theorem cleanupLoop_backslash (real : delim ≠ some nul)
    (cleaning : Cleaning start ('\\' :: s) dest stop k) (inside : k.ptr + s.length + 1 < len)
    (plain : ∀ e ∈ s.head?, escapedChar delim e = none) :
    cleanupLoop len delim k =
      cleanupLoop len delim
        { k with
          mem := update k.mem k.dest '\\', ptr := k.ptr + 1, dest := k.dest + 1,
          stop := some (k.dest + 1) } := by
  obtain ⟨here, -, later⟩ := cleaning.rest
  have behind := cleaning.behind
  have none : escapedChar delim (k.mem (k.ptr + 1)) = none := by
    cases s with
    | nil => rw [show k.mem (k.ptr + 1) = nul from later, escapedChar_nul real]
    | cons e s => rw [later.1, plain e rfl]
  rw [cleanupLoop, if_pos (by omega), here, if_neg (by decide), if_pos rfl,
    load_eq (show k.ptr + 1 < len by omega)]
  simp only [ok_bind, none]
  rw [store_eq (by omega)]
  rfl

theorem cleanupLoop_quote (cleaning : Cleaning start ('\'' :: s) dest stop k)
    (inside : k.ptr + s.length + 1 < len) (counts : k.insideQuotes = true ∨ '\'' ∈ s) :
    cleanupLoop len delim k =
      cleanupLoop len delim
        { k with
          ptr := k.ptr + 1, insideQuotes := !k.insideQuotes,
          stop := if k.insideQuotes then k.stop else some k.dest } := by
  have mark := quoteCounts_eq cleaning.rest inside k.insideQuotes
  rw [decide_eq_true ⟨rfl, counts⟩] at mark
  rw [cleanupLoop, if_pos (by omega), mark, cleaning.rest.1, if_neg (by decide),
    if_neg (by decide)]
  rfl

theorem cleanupLoop_byte (cleaning : Cleaning start (c :: s) dest stop k)
    (inside : k.ptr + s.length + 1 < len) (other : c ≠ '\\')
    (plain : ¬ (c = '\'' ∧ (k.insideQuotes = true ∨ '\'' ∈ s))) :
    cleanupLoop len delim k =
      cleanupLoop len delim
        { k with
          mem := update k.mem k.dest c, ptr := k.ptr + 1, dest := k.dest + 1,
          stop := if c ≠ ' ' ∨ k.insideQuotes then some (k.dest + 1) else k.stop } := by
  have mark := quoteCounts_eq cleaning.rest inside k.insideQuotes
  rw [decide_eq_false plain] at mark
  have behind := cleaning.behind
  obtain ⟨here, byte, -⟩ := cleaning.rest
  rw [cleanupLoop, if_pos (by omega), mark, here, if_neg byte, if_neg other]
  simp only [ok_bind, Bool.false_eq_true, if_false]
  rw [store_eq (by omega)]
  rfl

/-- The result has `s` at `start`, and is as before except up to `last`. -/
def CleansTo (start last : Nat) (before : Memory) (result : Except Outside Memory) (s : Text) :
    Prop :=
  ∃ mem, result = .ok mem ∧ Holds mem start s ∧ ∀ i, i < start ∨ last < i → mem i = before i

theorem CleansTo.since {last last' : Nat} {before before' : Memory}
    {result : Except Outside Memory} (cleans : CleansTo start last' before' result s)
    (same : last' = last) (frame : ∀ i, i < start ∨ last < i → before' i = before i) :
    CleansTo start last before result s := by
  obtain ⟨mem, returns, holds, outside⟩ := cleans
  refine ⟨mem, returns, holds, fun i apart => ?_⟩
  rw [outside i (same ▸ apart), frame i apart]

/-- **The cleaner in place does what the cleaner of texts does**, and leaves what is in front of the
piece and behind its NUL. -/
theorem cleanupLoop_spec (real : delim ≠ some nul) (cleaning : Cleaning start s dest stop k)
    (quotes : k.insideQuotes = q) (inside : k.ptr + s.length < len) :
    CleansTo start (k.ptr + s.length) k.mem (cleanupLoop len delim k >>= endCleanup len)
      (cleanupFrom delim s q dest stop) := by
  fun_induction cleanupFrom delim s q dest stop generalizing k with
  | case1 q dest stop =>
    rw [cleanupLoop_end cleaning (by simpa using inside), ok_bind]
    have behind := cleaning.behind
    have place := cleaning.place
    rcases cleaning.kept with ⟨ends, within⟩ | ⟨ends, rfl, rfl, still, -⟩
    · refine ⟨update k.mem (start + stop) nul, ?_, cleaning.written.ended within, ?_⟩
      · rw [endCleanup, ends]
        exact store_eq (by simp only [length_nil] at inside; omega)
      · intro i outside
        refine update_of_ne ?_ _ _
        simp only [length_nil] at outside
        omega
    · refine ⟨k.mem, by rw [endCleanup, ends], ?_, fun i _ => rfl⟩
      exact still ▸ cleaning.rest
  | case2 e rest q dest stop c escaped ih =>
    have behind := cleaning.behind
    have place := cleaning.place
    have byte := escapedChar_ne_nul cleaning.rest.2.2.2.1 escaped
    have next : Cleaning start rest (dest ++ [c]) (dest.length + 1) _ :=
      Cleaning.write cleaning (cons_ne_nil '\\' [e]) byte le_rfl
    simp only [length_cons] at inside ⊢
    rw [cleanupLoop_escaped cleaning (by omega) escaped, place, Nat.add_assoc start]
    rw [place] at next
    refine (ih next quotes (by simp; omega)).since (by simp; omega) fun i apart => ?_
    exact update_of_ne (by omega) _ _
  | case3 e rest q dest stop plain ih =>
    have behind := cleaning.behind
    have place := cleaning.place
    have next : Cleaning start (e :: rest) (dest ++ ['\\']) (dest.length + 1) _ :=
      Cleaning.write cleaning (cons_ne_nil '\\' []) (by decide) le_rfl
    simp only [length_cons] at inside ⊢
    rw [cleanupLoop_backslash real cleaning (by simp; omega) (by simpa using plain), place,
      Nat.add_assoc start]
    rw [place] at next
    refine (ih next quotes (by simp; omega)).since (by simp; omega) fun i apart => ?_
    exact update_of_ne (by omega) _ _
  | case4 c rest q dest stop whole counts ih =>
    obtain ⟨rfl, counts⟩ := counts
    have behind := cleaning.behind
    have next := cleaning.quote quotes
    simp only [length_cons] at inside ⊢
    rw [cleanupLoop_quote cleaning (by omega) (quotes ▸ counts)]
    refine (ih next (by simp [quotes]) (by simp; omega)).since (by simp; omega) fun i apart => rfl
  | case5 c rest q dest stop whole plain ih =>
    have behind := cleaning.behind
    have place := cleaning.place
    have byte := cleaning.rest.2.1
    obtain ⟨stops, within⟩ := cleaning.stops quotes
    have next : Cleaning start rest (dest ++ [c])
        (if c ≠ ' ' ∨ q = true then dest.length + 1 else stop) _ :=
      Cleaning.write cleaning (cons_ne_nil c []) byte within
    simp only [length_cons] at inside ⊢
    by_cases slash : c = '\\'
    · -- nothing is behind the backslash, which is kept
      subst slash
      obtain rfl : rest = [] := by
        cases rest with
        | nil => rfl
        | cons e rest => exact (whole e rest rfl rfl).elim
      rw [cleanupLoop_backslash real cleaning (by simpa using inside) nofun]
      rw [if_pos (.inl (by decide))] at stops
      rw [stops]
      refine (ih next quotes (by simpa using inside)).since rfl fun i apart => ?_
      exact update_of_ne (by omega) _ _
    · rw [cleanupLoop_byte cleaning (by omega) slash (quotes ▸ plain), stops]
      refine (ih next quotes (by simp; omega)).since (by simp; omega) fun i apart => ?_
      exact update_of_ne (by omega) _ _

end Passes

end Cleaning

theorem cleanupInPlace_spec {len : Nat} {delim : Option Char} {mem : Memory} {str : Nat} {s : Text}
    (real : delim ≠ some nul) (holds : Holds mem str s) (inside : str + s.length < len) :
    ∃ mem' start, cleanupInPlace len delim mem str = .ok (mem', start) ∧ str ≤ start ∧
      start + (cleanupSeparatedString delim s).length ≤ str + s.length ∧
      Holds mem' start (cleanupSeparatedString delim s) ∧
      ∀ i, i < str ∨ str + s.length < i → mem' i = mem i := by
  have size : (s.takeWhile (· = ' ')).length + (skipSpaces s).length = s.length := by
    rw [← length_append, blanks_append]
  have fits := cleanupFrom_length delim (skipSpaces s) false [] 0
  have first : Cleaning (str + (s.takeWhile (· = ' ')).length) (skipSpaces s) [] 0
      ⟨mem, str + (s.takeWhile (· = ' ')).length, str + (s.takeWhile (· = ' ')).length, none,
        false⟩ :=
    ⟨holds_skipSpaces holds, trivial, rfl, le_rfl,
      .inr ⟨rfl, rfl, rfl, rfl, rfl, skipSpaces_head s⟩⟩
  have room : str + (s.takeWhile (· = ' ')).length + (skipSpaces s).length < len := by omega
  obtain ⟨mem', returns, cleaned, frame⟩ := cleanupLoop_spec real first rfl room
  refine ⟨mem', str + (s.takeWhile (· = ' ')).length, ?_, by omega, ?_, cleaned, ?_⟩
  · rw [cleanupInPlace, skipBlanksAt_eq holds inside, ok_bind, ← bind_assoc, returns]
    rfl
  · rw [cleanupSeparatedString]
    simp only [length_nil] at fits
    omega
  · intro i apart
    refine frame i ?_
    simp only
    omega

theorem cleanupAll_spec {len : Nat} {delim : Option Char} {mem : Memory} {low : Nat}
    {array : List Nat} {raw : List Text} (real : delim ≠ some nul)
    (spread : Spread mem low len array raw) :
    ∃ mem' array', cleanupAll len delim mem array = .ok (mem', array') ∧
      Spread mem' low len array' (raw.map (cleanupSeparatedString delim)) ∧
      ∀ i < low, mem' i = mem i := by
  induction array generalizing mem low raw with
  | nil =>
    cases raw with
    | nil => exact ⟨mem, [], rfl, trivial, fun i _ => rfl⟩
    | cons s raw => exact spread.elim
  | cons str array ih =>
    cases raw with
    | nil => exact spread.elim
    | cons s raw =>
      obtain ⟨after, before, here, later⟩ := spread
      obtain ⟨mem₁, start, cleans, forward, shorter, cleaned, frame⟩ :=
        cleanupInPlace_spec real here before
      have kept : Spread mem₁ (str + s.length + 1) len array raw :=
        later.congr fun i first last => frame i (.inr first)
      obtain ⟨mem₂, array', rest, spread', frame'⟩ := ih kept
      refine ⟨mem₂, start :: array', ?_, ⟨by omega, by omega, ?_, ?_⟩, fun i small => ?_⟩
      · rw [cleanupAll, cleans, ok_bind]
        dsimp only
        rw [rest]
        rfl
      · exact cleaned.congr fun i first last => frame' i (by omega)
      · exact spread'.mono (by omega) le_rfl
      · rw [frame' i (by omega), frame i (.inl (by omega))]

end FreeSwitch
