/-
**Schedule expressions.**

A list of values and ranges, as the attributes about time have it. `switch_dow_cmp` reads days token by
token; `switch_number_cmp` looks for a `-` first, and where there is one it takes the whole text for a
single range, from the number at its beginning to the one behind the first `-`.

* `schedule_cmp`: which lists are compared as they say.
-/

import FreeSwitch.Lib.CString

namespace FreeSwitch

open CString List

/-! ### The comparators -/

/-- The texts that `switch_number_cmp` reads numbers from, behind the first. The search for a comma
begins behind the first character. -/
def laterNumbers : Nat → Text → List Text
  | 0, _ => []
  | n + 1, p => p :: ((cut ',' (p.drop 1)).2.elim [] (laterNumbers n))

def numberCmp (exp : Text) (val : Int) : Bool :=
  match (cut '-' exp).2 with
  | some max => atoi exp ≤ val && val ≤ atoi max
  | none =>
    (exp :: (cut ',' exp).2.elim [] fun p => laterNumbers (p.length + 1) p).any fun cur =>
      strtol cur == val

/-- `DOW`. -/
def dowNames : List Text := ["sun", "mon", "tue", "wed", "thu", "fri", "sat"].map String.toList

def dowStr2int (exp : Text) : Int :=
  let x := dowNames.findIdx fun name => lower (exp.take 3) == name
  if x < dowNames.length then x + 1 else -1

/-- `DOW_ERR`, `DOW_EOF`, `DOW_HYPHEN` and `DOW_COMA`; a day is its number. -/
def dowErr : Int := -2

@[inherit_doc dowErr] def dowEof : Int := -1

@[inherit_doc dowErr] def dowHyphen : Int := '-'.toNat

@[inherit_doc dowErr] def dowComa : Int := ','.toNat

def dowReadToken : Text → Int × Text
  | [] => (dowEof, [])
  | c :: s =>
    if c = '-' then (dowHyphen, s)
    else if c = ',' then (dowComa, s)
    else if '1' ≤ c ∧ c ≤ '7' then (c.toNat - '0'.toNat, s)
    else if dowStr2int (c :: s) ≠ -1 then (dowStr2int (c :: s), (c :: s).drop 3)
    else (dowErr, c :: s)

/-- The loop of `switch_dow_cmp`, with `prev` and `range_start`. -/
def dowLoop (val : Int) : Nat → Text → Int → Int → Bool
  | 0, _, _, _ => false
  | n + 1, p, prev, rangeStart =>
    let (cur, p) := dowReadToken p
    if cur = dowEof then false
    else if cur = dowComa then dowLoop val n p dowEof rangeStart
    else if cur = dowHyphen then dowLoop val n p cur prev
    else if cur = dowErr then false
    else if rangeStart ≠ dowEof then
      rangeStart ≤ val && val ≤ cur || dowLoop val n p cur dowEof
    else val == cur || dowLoop val n p cur rangeStart

def dowCmp (exp : Text) (val : Int) : Bool := dowLoop val (exp.length + 1) exp dowEof dowEof

/-! ### Lists of values and ranges -/

/-- A value, or a range up to `last`. -/
structure ScheduleItem where
  first : Text
  last : Option Text

def ScheduleItem.text (item : ScheduleItem) : Text :=
  item.first ++ item.last.elim [] fun last => '-' :: last

def scheduleText (items : List ScheduleItem) : Text := [','].intercalate (items.map ScheduleItem.text)

def ScheduleItem.Holds (read : Text → Nat) (item : ScheduleItem) (val : Int) : Prop :=
  match item.last with
  | none => val = read item.first
  | some last => read item.first ≤ val ∧ val ≤ read last

/-- **The value is in the list.** -/
def InSchedule (read : Text → Nat) (items : List ScheduleItem) (val : Int) : Prop :=
  ∃ item ∈ items, item.Holds read val

structure ScheduleItem.Proper (isValue : Text → Prop) (read : Text → Nat) (item : ScheduleItem) : Prop where
  first : isValue item.first
  last : ∀ last ∈ item.last, isValue last ∧ read item.first ≤ read last

def IsDecimal (t : Text) : Prop := t ≠ [] ∧ ∀ c ∈ t, c.isDigit = true

def dayOf : Text → Nat
  | [c] => if '1' ≤ c ∧ c ≤ '7' then c.toNat - '0'.toNat else 0
  | t => if t.length = 3 then (dowStr2int t).toNat else 0

def IsDay (t : Text) : Prop := dayOf t ≠ 0

def firstRange (items : List ScheduleItem) : Option Text := items.findSome? ScheduleItem.last

def firstNumber (items : List ScheduleItem) : Text := items.head?.elim [] ScheduleItem.first

/-- A number that is read as `long` and kept as `int`. -/
def asInt (n : Nat) : Int := Int.bmod (min n (2 ^ 63 - 1)) (2 ^ 32)

/-- A value of type `int`. -/
def IsInt (val : Int) : Prop := -2 ^ 31 ≤ val ∧ val < 2 ^ 31

open ScheduleItem

theorem inSchedule_cons (read : Text → Nat) (item : ScheduleItem) (items : List ScheduleItem) (val : Int) :
    InSchedule read (item :: items) val ↔ item.Holds read val ∨ InSchedule read items val := by
  simp [InSchedule]

theorem scheduleText_cons (item : ScheduleItem) (items : List ScheduleItem) :
    scheduleText (item :: items) = item.text ++ match items with
      | [] => []
      | next :: items => ',' :: scheduleText (next :: items) := by
  cases items with
  | nil => simp [scheduleText]
  | cons next items => simp [scheduleText, intercalate_cons_cons]

/-! ### Days -/

section Days

variable {t rest : Text} {val : Int} {n : Nat}

theorem toLower_of_lt {c : Char} (low : c < 'A') : c.toLower = c := by
  unfold Char.toLower
  rw [dif_neg]
  exact fun upper => absurd low (not_lt.mpr upper.1)

theorem dowStr2int_name (name : (dowStr2int t).toNat ≠ 0) :
    (dowStr2int t).toNat ≤ 7 ∧ dowStr2int t ≠ -1 ∧ ∀ c ∈ t.head?, 'A' ≤ c := by
  unfold dowStr2int at name ⊢
  dsimp only at name ⊢
  split_ifs at name ⊢ with found
  · have small : dowNames.findIdx (fun name => lower (t.take 3) == name) < 7 := found
    have same := findIdx_getElem (w := found)
    rw [beq_iff_eq] at same
    refine ⟨by omega, by omega, fun c member => not_lt.mp fun low => ?_⟩
    obtain ⟨rest, rfl⟩ := head?_eq_some_iff.mp member
    have letters : ∀ name ∈ dowNames, ∀ c ∈ name.head?, 'A' ≤ c := by
      intro name member c first
      fin_cases member
      all_goals
        obtain rfl := Option.some.inj first
        decide
    refine absurd (letters _ (getElem_mem found) c ?_) (not_le.mpr low)
    rw [← same, take_succ_cons, lower, map_cons, toLower_of_lt low]
    rfl
  · exact absurd rfl name

theorem dayOf_le (t : Text) : dayOf t ≤ 7 := by
  unfold dayOf
  split
  · split_ifs with digit
    · have high : _ ≤ '7'.toNat := UInt32.le_iff_toNat_le.mp digit.2
      exact Nat.sub_le_sub_right high _
    · exact Nat.zero_le _
  · split_ifs
    · by_cases name : (dowStr2int t).toNat = 0
      · omega
      · exact (dowStr2int_name name).1
    · exact Nat.zero_le _

theorem dowReadToken_day (day : IsDay t) (rest : Text) :
    dowReadToken (t ++ rest) = ((dayOf t : Int), rest) := by
  unfold IsDay dayOf at day
  unfold dayOf
  split at day
  case h_1 c =>
    split_ifs at day with digit
    · have low : '0'.toNat ≤ c.toNat := UInt32.le_iff_toNat_le.mp ((by decide : '0' ≤ '1').trans digit.1)
      have minus : c ≠ '-' := fun same => absurd digit.1 (by rw [same]; decide)
      have comma : c ≠ ',' := fun same => absurd digit.1 (by rw [same]; decide)
      rw [singleton_append, dowReadToken, if_neg minus, if_neg comma, if_pos digit]
      simp only [digit, and_self, if_true, Nat.cast_sub low]
    · exact absurd rfl day
  case h_2 other =>
    split_ifs at day with three
    · obtain ⟨-, found, letter⟩ := dowStr2int_name day
      obtain ⟨c, s, rfl⟩ := exists_cons_of_ne_nil (ne_nil_of_length_pos (by omega : 0 < t.length))
      have high : 'A' ≤ c := letter c rfl
      have front : dowStr2int (c :: (s ++ rest)) = dowStr2int (c :: s) := by
        unfold dowStr2int
        rw [← cons_append, take_append_of_le_length (by omega)]
      have above : ∀ d, d < 'A' → c ≠ d := fun d low same => absurd high (not_le.mpr (same ▸ low))
      have notDigit : ¬ ('1' ≤ c ∧ c ≤ '7') := fun digit =>
        absurd (high.trans digit.2) (by decide)
      have positive : 0 ≤ dowStr2int (c :: s) := by omega
      rw [cons_append, dowReadToken, if_neg (above '-' (by decide)), if_neg (above ',' (by decide)),
        if_neg notDigit, front, if_pos found, if_pos three, Int.toNat_of_nonneg positive,
        ← cons_append, ← three, drop_left]
    · exact absurd rfl day

theorem IsDay.length_pos (day : IsDay t) : 0 < t.length :=
  length_pos_of_ne_nil fun empty => day (by rw [empty]; rfl)

theorem dowLoop_day (day : IsDay t) (prev rangeStart : Int) (rest : Text) :
    dowLoop val (n + 1) (t ++ rest) prev rangeStart = if rangeStart ≠ dowEof then
      rangeStart ≤ val && val ≤ dayOf t || dowLoop val n rest (dayOf t) dowEof
    else val == dayOf t || dowLoop val n rest (dayOf t) rangeStart := by
  have small := dayOf_le t
  have eof : (dayOf t : Int) ≠ dowEof := by unfold dowEof; omega
  have coma : (dayOf t : Int) ≠ dowComa := fun same => by
    change (dayOf t : Int) = 44 at same
    omega
  have hyphen : (dayOf t : Int) ≠ dowHyphen := fun same => by
    change (dayOf t : Int) = 45 at same
    omega
  have err : (dayOf t : Int) ≠ dowErr := by unfold dowErr; omega
  rw [dowLoop, dowReadToken_day day]
  dsimp only
  rw [if_neg eof, if_neg coma, if_neg hyphen, if_neg err]

theorem dowLoop_iff {items : List ScheduleItem} (proper : ∀ item ∈ items, item.Proper IsDay dayOf)
    (enough : (scheduleText items).length < n) :
    dowLoop val n (scheduleText items) dowEof dowEof = true ↔ InSchedule dayOf items val := by
  induction items generalizing n with
  | nil =>
    obtain ⟨n, rfl⟩ := Nat.exists_eq_add_of_lt enough
    simp [scheduleText, InSchedule, dowLoop, dowReadToken]
  | cons item items ih =>
    rw [scheduleText_cons] at enough ⊢
    generalize shape : (match items with | [] => [] | next :: items => ',' :: scheduleText (next :: items))
      = tail at enough ⊢
    -- behind an item the loop begins again
    have behind : ∀ {n : Nat} (prev : Int), tail.length < n →
        (dowLoop val n tail prev dowEof = true ↔ InSchedule dayOf items val) := by
      intro n prev longer
      obtain ⟨n, rfl⟩ : ∃ k, n = k + 1 := ⟨n - 1, by omega⟩
      subst shape
      cases items with
      | nil => simp [InSchedule, dowLoop, dowReadToken]
      | cons next items =>
        rw [length_cons] at longer
        exact ih (fun i member => proper i (mem_cons_of_mem _ member)) (by omega)
    have own := proper item mem_cons_self
    rw [inSchedule_cons]
    unfold Holds
    unfold text at enough ⊢
    cases last : item.last with
    | none =>
      rw [last, Option.elim_none, append_nil, length_append] at enough
      have filled := own.first.length_pos
      obtain ⟨n, rfl⟩ : ∃ k, n = k + 1 := ⟨n - 1, by omega⟩
      rw [Option.elim_none, append_nil, dowLoop_day own.first, if_neg (by simp), Bool.or_eq_true,
        behind _ (by omega), beq_iff_eq]
    | some last' =>
      obtain ⟨day, order⟩ := own.last last' last
      rw [last, Option.elim_some, length_append, length_append, length_cons] at enough
      have filled := own.first.length_pos
      have filled' := day.length_pos
      obtain ⟨n, rfl⟩ : ∃ k, n = k + 3 := ⟨n - 3, by omega⟩
      have hyphen : ∀ prev s, dowLoop val (n + 2) ('-' :: s) prev dowEof =
          dowLoop val (n + 1) s dowHyphen prev := fun prev s => rfl
      have started : (dayOf item.first : Int) ≠ dowEof := by unfold dowEof; omega
      rw [Option.elim_some, append_assoc, cons_append, dowLoop_day own.first, if_neg (by simp),
        hyphen, dowLoop_day day, if_pos started, Bool.or_eq_true, Bool.or_eq_true, behind _ (by omega),
        beq_iff_eq, Bool.and_eq_true, decide_eq_true_eq, decide_eq_true_eq, ← or_assoc]
      refine or_congr_left ⟨?_, .inr⟩
      rintro (rfl | inside)
      · exact ⟨le_rfl, by omega⟩
      · exact inside

end Days

/-! ### Numbers -/

section Numbers

variable {t rest : Text} {val : Int}

theorem digits_append (number : IsDecimal t) (stop : ∀ c ∈ rest.head?, c.isDigit = false) :
    digits (t ++ rest) = digits t := by
  have ends : rest.takeWhile Char.isDigit = [] := by
    cases rest with
    | nil => rfl
    | cons c rest => simp [stop c (by simp)]
  rw [digits, digits, takeWhile_append_of_pos number.2, ends, append_nil,
    takeWhile_eq_self_iff.mpr number.2]

theorem strtol_number (number : IsDecimal t) (stop : ∀ c ∈ rest.head?, c.isDigit = false) :
    strtol (t ++ rest) = min (digits t : Int) (2 ^ 63 - 1) := by
  rw [← digits_append number stop]
  obtain ⟨c, s, rfl⟩ := exists_cons_of_ne_nil number.1
  exact strtol_digit (number.2 c mem_cons_self) _

theorem atoi_number (number : IsDecimal t) (stop : ∀ c ∈ rest.head?, c.isDigit = false) :
    atoi (t ++ rest) = asInt (digits t) := by
  rw [atoi, strtol_number number stop, asInt]

theorem IsDecimal.absent (number : IsDecimal t) {c : Char} (other : c.isDigit = false) : c ∉ t :=
  fun member => absurd (number.2 c member) (by rw [other]; decide)

theorem cut_behind {c : Char} (absent : c ∉ t) : (cut c (t ++ rest)).2 = (cut c rest).2 := by
  induction t with
  | nil => rfl
  | cons a t ih =>
    rw [mem_cons, not_or] at absent
    rw [cons_append, cut, if_neg (Ne.symm absent.1)]
    exact ih absent.2

theorem scheduleText_first {item : ScheduleItem} {items : List ScheduleItem} :
    ∃ rest, scheduleText (item :: items) = item.first ++ rest ∧ ∀ c ∈ rest.head?, c.isDigit = false := by
  rw [scheduleText_cons, text, append_assoc]
  refine ⟨_, rfl, ?_⟩
  cases item.last with
  | some last => simp [Char.isDigit]
  | none => cases items <;> simp [Char.isDigit]

variable {items : List ScheduleItem}

theorem cut_schedule (proper : ∀ item ∈ items, item.Proper IsDecimal digits) :
    ∃ rest, (∀ c ∈ rest.head?, c.isDigit = false) ∧
      (cut '-' (scheduleText items)).2 = (firstRange items).map (· ++ rest) := by
  induction items with
  | nil => exact ⟨[], nofun, rfl⟩
  | cons item items ih =>
    have own := proper item mem_cons_self
    obtain ⟨rest, stop, cuts⟩ := ih fun i member => proper i (mem_cons_of_mem _ member)
    have absent := own.first.absent (c := '-') (by decide)
    rw [scheduleText_cons, text, firstRange, findSome?_cons, append_assoc]
    cases item.last with
    | some last =>
      rw [Option.elim_some, cons_append, cut_append_cons absent]
      refine ⟨_, ?_, rfl⟩
      cases items <;> simp [Char.isDigit]
    | none =>
      refine ⟨rest, stop, ?_⟩
      rw [Option.elim_none, nil_append, cut_behind absent]
      cases items with
      | nil => exact cuts
      | cons next items => exact (cut_behind (t := [',']) (by decide)).trans cuts

theorem number_first {item : ScheduleItem} (int : IsInt val) (number : IsDecimal item.first)
    (single : item.last = none) :
    ((strtol (scheduleText (item :: items)) == val) = true ↔ item.Holds digits val) ∧
      ∀ k ≤ 1, (cut ',' ((scheduleText (item :: items)).drop k)).2 =
        if items = [] then none else some (scheduleText items) := by
  obtain ⟨rest, shape, stop⟩ := @scheduleText_first item items
  constructor
  · rw [shape, strtol_number number stop, beq_iff_eq, Holds, single]
    unfold IsInt at int
    omega
  · intro k few
    have filled := length_pos_of_ne_nil number.1
    have absent : ',' ∉ item.first.drop k := fun member =>
      number.absent (c := ',') (by decide) (mem_of_mem_drop member)
    rw [scheduleText_cons, text, single, Option.elim_none, append_nil,
      drop_append_of_le_length (by omega), cut_behind absent]
    cases items <;> rfl

theorem laterNumbers_iff (int : IsInt val) (single : ∀ item ∈ items, item.last = none)
    (numbers : ∀ item ∈ items, IsDecimal item.first) {n : Nat} (nonempty : items ≠ [])
    (enough : (scheduleText items).length < n) :
    (laterNumbers n (scheduleText items)).any (fun cur => strtol cur == val) = true ↔
      InSchedule digits items val := by
  induction items generalizing n with
  | nil => exact absurd rfl nonempty
  | cons item items ih =>
    obtain ⟨n, rfl⟩ : ∃ k, n = k + 1 := ⟨n - 1, by omega⟩
    obtain ⟨here, later⟩ := @number_first val items item int (numbers item mem_cons_self)
      (single item mem_cons_self)
    rw [laterNumbers, any_cons, Bool.or_eq_true, here, inSchedule_cons, later 1 le_rfl]
    refine or_congr_right ?_
    cases items with
    | nil => simp [InSchedule]
    | cons next items =>
      rw [scheduleText_cons, length_append, length_cons] at enough
      exact ih (fun i member => single i (mem_cons_of_mem _ member))
        (fun i member => numbers i (mem_cons_of_mem _ member)) (cons_ne_nil _ _) (by omega)

theorem numberCmp_iff (int : IsInt val) (nonempty : items ≠ [])
    (proper : ∀ item ∈ items, item.Proper IsDecimal digits) :
    numberCmp (scheduleText items) val = true ↔ match firstRange items with
      | none => InSchedule digits items val
      | some last => asInt (digits (firstNumber items)) ≤ val ∧ val ≤ asInt (digits last) := by
  obtain ⟨item, items, rfl⟩ := exists_cons_of_ne_nil nonempty
  obtain ⟨rest, stop, cuts⟩ := cut_schedule proper
  have number := (proper item mem_cons_self).first
  rw [numberCmp, cuts]
  cases range : firstRange (item :: items) with
  | some last =>
    obtain ⟨behind, shape, ends⟩ := @scheduleText_first item items
    obtain ⟨i, member, has⟩ := exists_of_findSome?_eq_some range
    have lastNumber := ((proper i member).last last has).1
    rw [Option.map_some]
    dsimp only
    rw [shape, atoi_number number ends, atoi_number lastNumber stop, Bool.and_eq_true, decide_eq_true_eq,
      decide_eq_true_eq]
    rfl
  | none =>
    have single : ∀ i ∈ item :: items, i.last = none := findSome?_eq_none_iff.mp range
    obtain ⟨here, later⟩ := @number_first val items item int number (single item mem_cons_self)
    have behind := later 0 (Nat.zero_le 1)
    rw [drop_zero] at behind
    rw [Option.map_none]
    dsimp only
    rw [any_cons, Bool.or_eq_true, here, inSchedule_cons, behind]
    refine or_congr_right ?_
    cases items with
    | nil => simp [InSchedule]
    | cons next items =>
      exact laterNumbers_iff int (fun i member => single i (mem_cons_of_mem _ member))
        (fun i member => (proper i (mem_cons_of_mem _ member)).first) (cons_ne_nil _ _)
        (Nat.lt_succ_self _)

end Numbers

/-- **Schedule expressions.** Days are compared as the list says; numbers are where the list has no range,
and else exactly where it holds just what lies between its first number and the end of its first
range. -/
theorem schedule_cmp {items : List ScheduleItem} (nonempty : items ≠ []) :
    ((∀ item ∈ items, item.Proper IsDay dayOf) → ∀ val,
      dowCmp (scheduleText items) val = true ↔ InSchedule dayOf items val) ∧
    ((∀ item ∈ items, item.Proper IsDecimal digits) →
      ((∀ val, IsInt val →
        (numberCmp (scheduleText items) val = true ↔ InSchedule digits items val)) ↔
      ∀ last ∈ firstRange items, ∀ val, IsInt val →
        (asInt (digits (firstNumber items)) ≤ val ∧ val ≤ asInt (digits last) ↔
          InSchedule digits items val))) := by
  refine ⟨fun proper val => dowLoop_iff proper (Nat.lt_succ_self _), fun proper => ?_⟩
  have compares := fun val int => @numberCmp_iff val items int nonempty proper
  cases range : firstRange items with
  | none =>
    rw [range] at compares
    exact iff_of_true compares nofun
  | some last =>
    rw [range] at compares
    simp only [Option.mem_def, Option.some.injEq, forall_eq']
    exact forall₂_congr fun val int => by rw [compares val int]

/-- The instances of the days `mon-wed,7` and of the hours `8-17,12`. -/
theorem schedule_cmp_week :
    (dowCmp (scheduleText [⟨"mon", some "wed"⟩, ⟨"7", none⟩]) 3 = true ↔
      InSchedule dayOf [⟨"mon", some "wed"⟩, ⟨"7", none⟩] 3) ∧
    ∀ val, IsInt val → (numberCmp (scheduleText [⟨"8", some "17"⟩, ⟨"12", none⟩]) val = true ↔
      InSchedule digits [⟨"8", some "17"⟩, ⟨"12", none⟩] val) := by
  refine ⟨(schedule_cmp (cons_ne_nil _ _)).1 (fun item member => ?_) 3,
    ((schedule_cmp (cons_ne_nil _ _)).2 fun item member => ?_).mpr fun last same val _ => ?_⟩
  · fin_cases member
    · refine ⟨by unfold IsDay; decide, fun last same => ?_⟩
      obtain rfl : "wed" = last := Option.some.inj same
      exact ⟨by unfold IsDay; decide, by decide⟩
    · exact ⟨by unfold IsDay; decide, nofun⟩
  · fin_cases member
    · refine ⟨by simp [IsDecimal, Char.isDigit], fun last same => ?_⟩
      obtain rfl : "17" = last := Option.some.inj same
      exact ⟨by simp [IsDecimal, Char.isDigit], by decide⟩
    · exact ⟨by simp [IsDecimal, Char.isDigit], nofun⟩
  · obtain rfl : "17" = last := Option.some.inj same
    have first : digits ['8'] = 8 := by decide
    have range : digits ['1', '7'] = 17 := by decide
    have single : digits ['1', '2'] = 12 := by decide
    simp [InSchedule, Holds, firstNumber, asInt, first, range, single, Int.bmod]
    omega

/-- **A list is taken for a range**: 5 is in `1-3,5`, and is not found. -/
theorem list_taken_for_range :
    numberCmp (scheduleText [⟨"1", some "3"⟩, ⟨"5", none⟩]) 5 = false ∧
      InSchedule digits [⟨"1", some "3"⟩, ⟨"5", none⟩] 5 := by
  refine ⟨by decide, _, mem_cons_of_mem _ mem_cons_self, ?_⟩
  unfold Holds
  decide

end FreeSwitch
