/-
**C strings and the library calls on them.**

A string is the list of its bytes before the terminating NUL, one `Char` for each byte. The calls
that write a NUL into the string (`if ((p = strchr(s, c))) *p++ = '\0'`) return the two halves.

* `cut` and `cutStr` split at the first byte, or the first occurrence of a delimiter; their laws are
  `cut_append`, `cut_not_mem` and `cutStr_length`.
* `splitStr` splits at every occurrence; `separateStr_eq` is its bounded, array-filling form.
* `strstr_isSome` reads the substring test as `<:+:`.
* `ciEq` is `strcasecmp` equality in the C locale, an equivalence; `ciHash` respects it.
* `atoi_toDigits` and `atoi_intText` read a printed number back.
-/

import Mathlib

namespace CString

open List

abbrev Text := List Char

/-- A literal stands for its bytes. -/
instance textOfString : Coe String Text := ⟨String.toList⟩

/-! ### Searching and cutting -/

/-- `strchr` with the write that follows it everywhere: the text before the first `c`, and the text
after, if any. -/
def cut (c : Char) : Text → Text × Option Text
  | [] => ([], none)
  | a :: s => if a = c then ([], some s) else (a :: (cut c s).1, (cut c s).2)

def isLineEnd (c : Char) : Bool := c = '\r' || c = '\n'

/-- `while (*s == ' ') s++`. -/
def skipSpaces (s : Text) : Text := s.dropWhile (· = ' ')

/-- `snprintf` of a text into a buffer of `size` bytes. -/
def snprintf (size : Nat) (s : Text) : Text := s.take (size - 1)

variable {c : Char} {a b d rest s t : Text}

theorem snprintf_eq {size : Nat} (fits : s.length < size) : snprintf size s = s :=
  take_of_length_le (by omega)

/-- `strstr`: the suffix that starts at the first occurrence. -/
def strstr (needle : Text) : Text → Option Text
  | [] => if needle = [] then some [] else none
  | a :: s => if needle.isPrefixOf (a :: s) then some (a :: s) else strstr needle s

/-- `strstr` with the write that follows it, for the delimiter `c :: d`. -/
def cutStr (c : Char) (d : Text) : Text → Text × Option Text
  | [] => ([], none)
  | a :: s =>
    if a = c ∧ d.isPrefixOf s then ([], some (s.drop d.length))
    else (a :: (cutStr c d s).1, (cutStr c d s).2)

theorem cut_not_mem (c : Char) (s : Text) : c ∉ (cut c s).1 := by
  induction s with
  | nil => simp [cut]
  | cons a s ih =>
    by_cases same : a = c
    · simp [cut, same]
    · simp only [cut, if_neg same, mem_cons, not_or]
      exact ⟨fun equal => same equal.symm, ih⟩

theorem cut_append (c : Char) (s : Text) :
    (cut c s).1 ++ (match (cut c s).2 with | none => [] | some t => c :: t) = s := by
  induction s with
  | nil => rfl
  | cons a s ih =>
    by_cases same : a = c
    · simp [cut, same]
    · simp only [cut, if_neg same, cons_append, ih]

theorem cut_of_not_mem (absent : c ∉ s) : cut c s = (s, none) := by
  induction s with
  | nil => rfl
  | cons a s ih =>
    simp only [mem_cons, not_or] at absent
    simp [cut, Ne.symm absent.1, ih absent.2]

theorem cut_append_cons (absent : c ∉ s) (t : Text) :
    cut c (s ++ c :: t) = (s, some t) := by
  induction s with
  | nil => simp [cut]
  | cons a s ih =>
    simp only [mem_cons, not_or] at absent
    simp [cut, Ne.symm absent.1, ih absent.2]

theorem cut_length (c : Char) (s t : Text) (found : (cut c s).2 = some t) :
    t.length < s.length := by
  have whole := congrArg length (cut_append c s)
  rw [found] at whole
  simp only [length_append, length_cons] at whole
  omega

theorem cutStr_length (found : (cutStr c d s).2 = some t) :
    t.length < s.length := by
  induction s with
  | nil => simp [cutStr] at found
  | cons a s ih =>
    unfold cutStr at found
    split at found
    · cases found
      simp only [length_drop, length_cons]
      omega
    · have := ih found
      simp only [length_cons]
      omega

theorem cutStr_fst_length (c : Char) (d s : Text) : (cutStr c d s).1.length ≤ s.length := by
  induction s with
  | nil => simp [cutStr]
  | cons a s ih =>
    unfold cutStr
    split
    · simp
    · simpa using ih

theorem strstr_isSome (needle s : Text) : (strstr needle s).isSome ↔ needle <:+: s := by
  induction s with
  | nil =>
    by_cases empty : needle = [] <;> simp [strstr, empty]
  | cons a s ih =>
    unfold strstr
    split
    next front =>
      simpa using ( isPrefixOf_iff_prefix.mp front).isInfix
    next front =>
      rw [ih, infix_cons_iff]
      have notFront : ¬ needle <+: a :: s := fun h => front ( isPrefixOf_iff_prefix.mpr h)
      simp [notFront]

/-! ### Splitting at every delimiter -/

/-- The pieces between the occurrences of the delimiter `c :: d`. -/
def splitStr (c : Char) (d s : Text) : List Text :=
  match _found : (cutStr c d s).2 with
  | none => [s]
  | some t => (cutStr c d s).1 :: splitStr c d t
termination_by s.length
decreasing_by exact cutStr_length _found

def occurrences (c : Char) (d s : Text) : Nat :=
  match found : (cutStr c d s).2 with
  | none => 0
  | some t => occurrences c d t + 1
termination_by s.length
decreasing_by exact cutStr_length found

/-- The splitter for an array of `arraylen` entries; the last keeps what is left. -/
def separateStr (c : Char) (d : Text) : Nat → Text → List Text
  | arraylen + 2, s =>
    match (cutStr c d s).2 with
    | some t => (cutStr c d s).1 :: separateStr c d (arraylen + 1) t
    | none => [s]
  | _, s => [s]

theorem splitStr_none (found : (cutStr c d s).2 = none) :
    splitStr c d s = [s] := by
  rw [splitStr]
  split
  · rfl
  next other =>
    rw [found] at other
    cases other

theorem splitStr_some (found : (cutStr c d s).2 = some t) :
    splitStr c d s = (cutStr c d s).1 :: splitStr c d t := by
  rw [splitStr]
  split
  next other =>
    rw [found] at other
    cases other
  next other =>
    rw [found] at other
    cases other
    rfl

theorem occurrences_none (found : (cutStr c d s).2 = none) :
    occurrences c d s = 0 := by
  rw [occurrences]
  split
  · rfl
  next other =>
    rw [found] at other
    cases other

theorem occurrences_some (found : (cutStr c d s).2 = some t) :
    occurrences c d s = occurrences c d t + 1 := by
  rw [occurrences]
  split
  next other =>
    rw [found] at other
    cases other
  next other =>
    rw [found] at other
    cases other
    rfl

theorem separateStr_eq (c : Char) (d s : Text) :
    separateStr c d (occurrences c d s + 1) s = splitStr c d s := by
  induction s using splitStr.induct (c := c) (d := d) with
  | case1 s found => rw [occurrences_none found, splitStr_none found, separateStr.eq_def]
  | case2 s t found ih =>
    rw [occurrences_some found, splitStr_some found, separateStr, found]
    simp only [ih]

theorem splitStr_length :
    ∀ piece ∈ splitStr c d s, piece.length ≤ s.length := by
  induction s using splitStr.induct (c := c) (d := d) with
  | case1 s found => simp [splitStr_none found]
  | case2 s t found ih =>
    rw [splitStr_some found]
    intro piece member
    rcases mem_cons.mp member with rfl | member
    · exact cutStr_fst_length c d s
    · exact (ih piece member).trans (cutStr_length found).le

theorem splitStr_ne_nil (c : Char) (d s : Text) : splitStr c d s ≠ [] := by
  cases found : (cutStr c d s).2 with
  | none => simp [splitStr_none found]
  | some t => simp [splitStr_some found]

/-! ### Case-insensitive comparison -/

/-- The text in lower case, as `tolower` maps it in the C locale. -/
def lower (s : Text) : Text := s.map Char.toLower

/-- `!strcasecmp(a, b)`. -/
def ciEq (a b : Text) : Bool := lower a == lower b

/-- `!strncasecmp(s, head, strlen(head))`. -/
def ciHasPrefix (head s : Text) : Bool := (lower head).isPrefixOf (lower s)

theorem ciHasPrefix_comparable (first : ciHasPrefix a s = true) (second : ciHasPrefix b s = true) :
    ciHasPrefix a b = true ∨ ciHasPrefix b a = true := by
  simp only [ciHasPrefix, isPrefixOf_iff_prefix] at first second ⊢
  exact prefix_or_prefix_of_prefix first second

def ciHash (s : Text) : Nat := s.foldl (fun hash c => (hash * 33 + c.toLower.toNat) % 2 ^ 32) 0

theorem ciEq_iff : ciEq a b = true ↔ lower a = lower b := by simp [ciEq]

@[simp] theorem ciEq_refl (a : Text) : ciEq a a = true := by simp [ciEq]

theorem ciEq_comm (a b : Text) : ciEq a b = ciEq b a := by
  unfold ciEq
  exact Bool.beq_comm

theorem ciEq_trans {c : Text} (first : ciEq a b = true) (second : ciEq b c = true) :
    ciEq a c = true := by
  rw [ciEq_iff] at *
  exact first.trans second

theorem ciEq_congr (same : ciEq a b = true) (c : Text) : ciEq a c = ciEq b c := by
  unfold ciEq
  rw [ciEq_iff.mp same]

theorem eq_bracket_of_toLower (same : c.toLower = '[') : c = '[' := by
  unfold Char.toLower at same
  split at same
  next upper =>
    obtain ⟨low, high⟩ := upper
    rw [ge_iff_le, UInt32.le_iff_toNat_le] at low
    rw [UInt32.le_iff_toNat_le] at high
    have number := congrArg (fun c : Char => c.val.toNat) same
    simp only [UInt32.toNat_add, UInt32.toNat_sub] at number
    have valZ : 'Z'.val.toNat = 90 := rfl
    have vala : 'a'.val.toNat = 97 := rfl
    have valBracket : '['.val.toNat = 91 := rfl
    omega
  · exact same

theorem bracket_mem_of_ciEq (same : ciEq a b = true) (member : '[' ∈ a) : '[' ∈ b := by
  have inside : '['.toLower ∈ lower b := ciEq_iff.mp same ▸ mem_map_of_mem member
  obtain ⟨c, found, lowered⟩ := mem_map.mp inside
  rw [← eq_bracket_of_toLower lowered]
  exact found

theorem ciHash_eq_lower (s : Text) :
    ciHash s = (lower s).foldl (fun hash c => (hash * 33 + c.toNat) % 2 ^ 32) 0 := by
  unfold ciHash lower
  rw [foldl_map]

theorem ciHash_congr (same : ciEq a b = true) : ciHash a = ciHash b := by
  rw [ciHash_eq_lower, ciHash_eq_lower, ciEq_iff.mp same]

/-! ### Decimal numbers -/

def digits (s : Text) : Nat := Nat.ofDigitChars 10 (s.takeWhile Char.isDigit) 0

/-- The bytes `strtol` skips in front of a number. -/
def isSpace (c : Char) : Bool := c = ' ' || ('\t'.toNat ≤ c.toNat && c.toNat ≤ '\r'.toNat)

/-- `strtol(s, NULL, 10)`, clamped to 64 bits. -/
def strtol (s : Text) : Int :=
  match s.dropWhile isSpace with
  | '-' :: t => max (-(digits t : Int)) (-2 ^ 63)
  | '+' :: t => min (digits t : Int) (2 ^ 63 - 1)
  | t => min (digits t : Int) (2 ^ 63 - 1)

theorem strtol_lt (s : Text) : strtol s < 2 ^ 63 := by
  unfold strtol
  split <;> omega

/-- `atoi`: the low 32 bits of `strtol`, signed. -/
def atoi (s : Text) : Int := Int.bmod (strtol s) (2 ^ 32)

theorem digits_toDigits (i : Nat) (stop : ∀ c ∈ rest.head?, c.isDigit = false) :
    digits (Nat.toDigits 10 i ++ rest) = i := by
  have all : ∀ c ∈ Nat.toDigits 10 i, c.isDigit = true := fun c member =>
    Nat.isDigit_of_mem_toDigits (by decide) (by decide) member
  unfold digits
  rw [takeWhile_append_of_pos all]
  have ends : rest.takeWhile Char.isDigit = [] := by
    cases rest with
    | nil => rfl
    | cons c rest => simp [stop c (by simp)]
  rw [ends, append_nil, Nat.ofDigitChars_ten_toDigits]

theorem strtol_digit (digit : c.isDigit = true) (t : Text) :
    strtol (c :: t) = min (digits (c :: t) : Int) (2 ^ 63 - 1) := by
  have range : '0'.toNat ≤ c.toNat ∧ c.toNat ≤ '9'.toNat := by
    simpa [Char.isDigit, Char.le_def, UInt32.le_iff_toNat_le] using digit
  have notSpace : isSpace c = false := by
    have far : c ≠ ' ' := by
      rintro rfl
      simp at range
    have above : ¬ c.toNat ≤ '\r'.toNat :=
      Nat.not_le.mpr (lt_of_lt_of_le (by decide : '\r'.toNat < '0'.toNat) range.1)
    rw [isSpace, decide_eq_false far, decide_eq_false above, Bool.and_false, Bool.or_false]
  unfold strtol
  rw [dropWhile_cons_of_neg (by simp [notSpace])]
  split
  case h_1 shape | h_2 shape =>
    cases shape
    simp at range
  case h_3 => rfl

theorem atoi_digit (digit : c.isDigit = true) (small : digits (c :: t) < 2 ^ 31) :
    atoi (c :: t) = digits (c :: t) := by
  rw [atoi, strtol_digit digit, min_eq_left (by omega)]
  exact Int.bmod_eq_of_le (by omega) (by omega)

theorem atoi_toDigits (i : Nat) (small : i < 2 ^ 31) (stop : ∀ c ∈ rest.head?, c.isDigit = false) :
    atoi (Nat.toDigits 10 i ++ rest) = i := by
  have value := digits_toDigits i stop
  obtain ⟨c, tail, shape⟩ : ∃ c tail, Nat.toDigits 10 i = c :: tail :=
    exists_cons_of_ne_nil Nat.toDigits_ne_nil
  have digit : c.isDigit = true :=
    Nat.isDigit_of_mem_toDigits (b := 10) (n := i) (by decide) (by decide) (by rw [shape]; simp)
  rw [shape, cons_append] at value ⊢
  rw [atoi_digit digit (value.symm ▸ small), value]

theorem ofDigitChars_lt (s : Text) (n : Nat) (all : ∀ c ∈ s, c.isDigit = true) :
    Nat.ofDigitChars 10 s n < 10 ^ s.length * (n + 1) := by
  induction s generalizing n with
  | nil => simp
  | cons c s ih =>
    have digit : c.toNat ≤ '9'.toNat := by
      have digit := all c mem_cons_self
      simp only [Char.isDigit, Bool.and_eq_true, decide_eq_true_eq] at digit
      exact UInt32.le_iff_toNat_le.mp digit.2
    have rest := ih (10 * n + (c.toNat - '0'.toNat)) fun d member => all d (mem_cons_of_mem _ member)
    have small : c.toNat - '0'.toNat ≤ 9 := Nat.sub_le_sub_right digit _
    rw [Nat.ofDigitChars_cons, length_cons, Nat.pow_succ, Nat.mul_assoc]
    exact rest.trans_le (Nat.mul_le_mul_left _ (by omega))

theorem atoi_short (all : ∀ c ∈ s, c.isDigit = true) (short : s.length ≤ 9) (some : s ≠ []) :
    atoi s = digits s := by
  obtain ⟨c, t, rfl⟩ := exists_cons_of_ne_nil some
  have whole : (c :: t).takeWhile Char.isDigit = c :: t := takeWhile_eq_self_iff.mpr all
  have bound : digits (c :: t) < 10 ^ (c :: t).length * (0 + 1) := by
    rw [digits, whole]
    exact ofDigitChars_lt _ 0 all
  have power : 10 ^ (c :: t).length ≤ 10 ^ 9 := Nat.pow_le_pow_right (by decide) short
  exact atoi_digit (all c mem_cons_self) (by omega)

/-- A number in decimal, as `%d` prints it. -/
def intText (i : Int) : Text :=
  if 0 ≤ i then Nat.toDigits 10 i.toNat else '-' :: Nat.toDigits 10 i.natAbs

theorem atoi_intText (i : Int) (low : -2 ^ 31 ≤ i) (high : i < 2 ^ 31)
    (stop : ∀ c ∈ rest.head?, c.isDigit = false) : atoi (intText i ++ rest) = i := by
  unfold intText
  split
  · next positive =>
    rw [atoi_toDigits i.toNat (by omega) stop]
    omega
  · next negative =>
    have value := digits_toDigits i.natAbs stop
    have number : strtol ('-' :: (Nat.toDigits 10 i.natAbs ++ rest)) = i := by
      unfold strtol
      rw [dropWhile_cons_of_neg (by decide)]
      simp only [value]
      omega
    rw [cons_append, atoi, number]
    exact Int.bmod_eq_of_le (by omega) (by omega)

theorem mem_intText {i : Int} (member : c ∈ intText i) : c = '-' ∨ c.isDigit = true := by
  have digit : ∀ {n : Nat}, c ∈ Nat.toDigits 10 n → c.isDigit = true := fun member =>
    Nat.isDigit_of_mem_toDigits (by decide) (by decide) member
  unfold intText at member
  split at member
  · exact .inr (digit member)
  · rcases mem_cons.mp member with same | member
    · exact .inl same
    · exact .inr (digit member)

/-! ### Words -/

theorem splitOn_eq_cut (c : Char) (s : Text) :
    s.splitOn c = (cut c s).1 :: ((cut c s).2.elim [] fun t => t.splitOn c) := by
  have misses : ∀ x ∈ (cut c s).1, (x == c) = false := by
    intro x member
    rw [beq_eq_false_iff_ne]
    rintro rfl
    exact cut_not_mem _ _ member
  have whole := cut_append c s
  cases rest : (cut c s).2 with
  | none =>
    rw [rest, append_nil] at whole
    conv_lhs => rw [← whole]
    exact splitOnP_eq_singleton misses
  | some t =>
    rw [rest] at whole
    conv_lhs => rw [← whole]
    exact splitOnP_append_cons_of_forall_mem misses c (beq_self_eq_true c) t

/-! ### Joining -/

theorem intercalate_around (sep : Text) (before after : List Text) :
    ∃ front back, ∀ s : Text, sep.intercalate (before ++ s :: after) = front ++ s ++ back := by
  induction before with
  | nil =>
    cases after with
    | nil => exact ⟨[], [], fun s => by simp [intercalate_singleton]⟩
    | cons b bs => exact ⟨[], sep ++ sep.intercalate (b :: bs), fun s => by
        simp [intercalate_cons_cons]⟩
  | cons b bs ih =>
    obtain ⟨front, back, join⟩ := ih
    refine ⟨b ++ sep ++ front, back, fun s => ?_⟩
    rw [cons_append, intercalate_cons_of_ne_nil (by simp), join]
    simp only [append_assoc]

theorem cutStr_append (single : c ∉ d) (absent : ¬ (c :: d) <:+: a) (rest : Text) :
    cutStr c d (a ++ c :: (d ++ rest)) = (a, some rest) := by
  induction a with
  | nil =>
    rw [nil_append, cutStr, if_pos ⟨rfl, isPrefixOf_iff_prefix.mpr ⟨rest, rfl⟩⟩,
      drop_left]
  | cons b a ih =>
    have later : ¬ (b = c ∧ d.isPrefixOf (a ++ c :: (d ++ rest)) = true) := by
      rintro ⟨rfl, front⟩
      have start := isPrefixOf_iff_prefix.mp front
      -- the delimiter would lie within `a`, or reach its own first character
      rcases prefix_or_prefix_of_prefix start (prefix_append a _) with within | ⟨t, rfl⟩
      · exact absent (IsPrefix.isInfix (cons_prefix_cons.mpr ⟨rfl, within⟩))
      · cases t with
        | nil => exact absent (by rw [append_nil])
        | cons x t =>
          have same := (cons_prefix_cons.mp ((prefix_append_right_inj a).mp start)).1
          exact single (by simp [same])
    rw [cons_append, cutStr, if_neg later,
      ih fun inside => absent (inside.trans (suffix_cons b a).isInfix)]

theorem cutStr_absent (absent : ¬ (c :: d) <:+: s) :
    cutStr c d s = (s, none) := by
  induction s with
  | nil => rfl
  | cons b s ih =>
    have later : ¬ (b = c ∧ d.isPrefixOf s = true) := by
      rintro ⟨rfl, front⟩
      exact absent (IsPrefix.isInfix
        (cons_prefix_cons.mpr ⟨rfl, isPrefixOf_iff_prefix.mp front⟩))
    rw [cutStr, if_neg later, ih fun inside => absent (inside.trans (suffix_cons b s).isInfix)]

/-- **Splitting inverts joining**, where no piece holds the delimiter. -/
theorem splitStr_intercalate (single : c ∉ d) {pieces : List Text} (some : pieces ≠ [])
    (absent : ∀ piece ∈ pieces, ¬ (c :: d) <:+: piece) :
    splitStr c d ((c :: d).intercalate pieces) = pieces := by
  induction pieces with
  | nil => exact absurd rfl some
  | cons piece pieces ih =>
    have here := absent piece mem_cons_self
    cases pieces with
    | nil =>
      have whole := cutStr_absent here
      rw [intercalate_singleton, splitStr_none (by rw [whole])]
    | cons next pieces =>
      have found := cutStr_append single here ((c :: d).intercalate (next :: pieces))
      rw [intercalate_cons_cons, append_assoc, cons_append,
        splitStr_some (by rw [found]), found,
        ih (cons_ne_nil _ _) fun p member => absent p (mem_cons_of_mem _ member)]

end CString
