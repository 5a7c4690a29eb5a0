/-
**Capture substitution.**

`switch_perform_substitution` copies a text and puts captures in the place of `$N` and `${N}`. The
digits of a number are collected in `index`, and a `${N` without its `}` is taken back by as many
places as there are digits in it: the `${` is lost, and the digits stay for the next reference.

* `substitution_right`: the captures are put where they belong, and all else is copied, exactly where
  no `${N` lacks its `}`.
-/

import FreeSwitch.Lib.CString
import FreeSwitch.Lib.Loop

namespace FreeSwitch

open CString List Loop

/-- The difference of two numbers of type `switch_size_t`. -/
def sizeSub (x n : Nat) : Nat := if n ≤ x then x - n else 2 ^ 64 + x - n

/-- What `switch_perform_substitution` is given: what `pcre_get_substring` finds, empty where nothing
was captured, the text, the length of the buffer, and the memory behind the text. -/
structure RegexSubstitution where
  captures : List Text
  data : Text
  len : Nat
  beyond : Nat → Char

/-- The variables of the loop: `x`, the digits in `index`, and what was written. -/
structure Substituting where
  x : Nat
  index : Text
  written : Text

namespace RegexSubstitution

section Model

variable (p : RegexSubstitution)

def memory : Text := p.data ++ ['\x00']

/-- `data[x]`. -/
def char (x : Nat) : Char := (p.memory.drop x).headD (p.beyond x)

/-- `len - 1`. -/
def limit : Nat := sizeSub p.len 1

/-- What is written for the number in `index`. -/
def replacement (index : Text) : Text :=
  if atoi index < 0 ∨ 256 < atoi index then [] else p.captures.getD (atoi index).toNat []

/-- A `$` with a digit behind it, or behind its bracket, which is at `start`. -/
def reference (s : Substituting) (brace : Bool) (start : Nat) : Substituting :=
  let digits := ((p.memory.drop start).takeWhile Char.isDigit).take (9 - s.index.length)
  let index := s.index ++ digits
  let x := start + digits.length
  if brace && p.char x != '}' then
    let x := sizeSub x (index.length - 1)
    ⟨x, index, s.written ++ [p.char (sizeSub x 1)]⟩
  else
    ⟨if brace then x + 1 else x, [],
      s.written ++ (p.replacement index).take (p.limit - s.written.length)⟩

def copy (s : Substituting) : Substituting := ⟨s.x + 1, s.index, s.written ++ [p.char s.x]⟩

/-- A `$`. -/
def dollar (s : Substituting) : Substituting :=
  let brace := p.char (s.x + 1) == '{'
  let start := if brace then s.x + 2 else s.x + 1
  if (p.char start).isDigit then p.reference s brace start else p.copy s

def pass (s : Substituting) : Substituting ⊕ Text :=
  if s.written.length < p.limit ∧ s.x < p.data.length then
    .inl (if p.char s.x = '$' then p.dollar s else p.copy s)
  else .inr (s.written ++ ['\x00'])

def written : Nat → Substituting → Text
  | 0, s => s.written
  | n + 1, s =>
    match p.pass s with
    | .inl next => written n next
    | .inr text => text

end Model

variable {p : RegexSubstitution}

/-! ### Nothing is written behind the buffer -/

theorem pass_writes {s next : Substituting} (goes : p.pass s = .inl next) :
    ∃ more, next.written = s.written ++ more ∧ next.written.length ≤ p.limit := by
  have one (room : s.written.length < p.limit) (c : Char) : ∃ more, s.written ++ [c] = s.written ++ more ∧
      (s.written ++ [c]).length ≤ p.limit := ⟨_, rfl, by simpa using room⟩
  unfold pass at goes
  split_ifs at goes with room dollar
  · rw [← Sum.inl.inj goes, RegexSubstitution.dollar]
    generalize (if (p.char (s.x + 1) == '{') = true then s.x + 2 else s.x + 1) = start
    split
    · unfold reference
      extract_lets digits index x
      split
      · exact one room.1 _
      · refine ⟨_, rfl, ?_⟩
        rw [length_append, length_take]
        omega
    · exact one room.1 _
  · rw [← Sum.inl.inj goes]
    exact one room.1 _

/-- **Nothing is written behind the buffer**, in any number of passes. -/
theorem written_le (some : 1 ≤ p.len) (n : Nat) {s : Substituting}
    (bounded : s.written.length ≤ p.limit) : (p.written n s).length ≤ p.len := by
  have last : p.limit + 1 = p.len := by
    rw [limit, sizeSub, if_pos some]
    omega
  induction n generalizing s with
  | zero => exact bounded.trans (by omega)
  | succ n ih =>
    rw [written]
    cases goes : p.pass s with
    | inl next =>
      obtain ⟨more, -, within⟩ := pass_writes goes
      exact ih within
    | inr text =>
      unfold pass at goes
      split_ifs at goes with room
      rw [← Sum.inr.inj goes, length_append, length_singleton]
      omega

/-! ### What the text is to become -/

def numberOf (t : Text) : Text := (t.takeWhile Char.isDigit).take 9

def closes (t : Text) : Bool := (t.drop (numberOf t).length).head? == some '}'

def reference? : Text → Option (Text × Nat)
  | '{' :: t =>
    if numberOf t ≠ [] ∧ closes t = true then some (numberOf t, (numberOf t).length + 2) else none
  | t => if numberOf t ≠ [] then some (numberOf t, (numberOf t).length) else none

/-- The text with the captures in it; `skip` characters belong to a reference. -/
def substituted (captures : List Text) : Nat → Text → Text
  | _, [] => []
  | skip + 1, _ :: t => substituted captures skip t
  | 0, c :: t =>
    if c = '$' then
      match reference? t with
      | some (number, taken) =>
        captures.getD (digits number) [] ++ substituted captures taken t
      | none => '$' :: substituted captures 0 t
    else c :: substituted captures 0 t

/-- The text begins with a `${N` that is not closed. -/
def unclosed : Text → Bool
  | '$' :: '{' :: t => numberOf t != [] && !closes t
  | _ => false

/-- No `${N` lacks its bracket. -/
def Closed (data : Text) : Prop := ∀ t ∈ data.tails, unclosed t = false

instance decidableClosed (data : Text) : Decidable (Closed data) :=
  inferInstanceAs (Decidable (∀ t ∈ data.tails, unclosed t = false))

def known (captures : List Text) : Text → Bool
  | '$' :: t => (reference? t).elim true fun found =>
      digits found.1 ≤ 256 || captures.getD (digits found.1) [] == []
  | _ => true

def Known (captures : List Text) (data : Text) : Prop := ∀ t ∈ data.tails, known captures t = true

def start : Substituting := ⟨0, [], []⟩

/-- **The captures are put in, and nothing else is changed.** -/
def Right (p : RegexSubstitution) : Prop :=
  Returns p.pass start (substituted p.captures 0 p.data ++ ['\x00'])

theorem substituted_skip (captures : List Text) (skip : Nat) (t : Text) :
    substituted captures skip t = substituted captures 0 (t.drop skip) := by
  induction t generalizing skip with
  | nil => cases skip <;> rfl
  | cons c t ih =>
    cases skip with
    | zero => rfl
    | succ skip => exact ih skip

/-! ### One pass -/

section Passes

variable {x : Nat} {t w : Text}

/-- The loop is at the text `t`. -/
def At (p : RegexSubstitution) (x : Nat) (t : Text) : Prop := p.memory.drop x = t ++ ['\x00']

theorem At.drop (at_ : p.At x t) {n : Nat} (inside : n ≤ t.length) : p.At (x + n) (t.drop n) := by
  rw [At, ← drop_drop, at_, drop_append_of_le_length inside]

theorem At.inside (at_ : p.At x t) : x + t.length = p.data.length := by
  have length := congrArg List.length at_
  simp only [memory, length_drop, length_append, length_singleton] at length
  omega

theorem At.char (at_ : p.At x t) : p.char x = t.headD '\x00' := by
  rw [RegexSubstitution.char, at_]
  cases t <;> rfl

theorem takeWhile_terminated (t : Text) :
    (t ++ ['\x00']).takeWhile Char.isDigit = t.takeWhile Char.isDigit := by
  induction t with
  | nil => rfl
  | cons c t ih => rw [cons_append, takeWhile_cons, takeWhile_cons, ih]

theorem At.digits (at_ : p.At x t) :
    ((p.memory.drop x).takeWhile Char.isDigit).take 9 = numberOf t := by
  rw [at_, takeWhile_terminated, numberOf]

theorem numberOf_front (t : Text) : numberOf t <+: t :=
  have front : numberOf t <+: t.takeWhile Char.isDigit := take_prefix 9 _
  front.trans <| takeWhile_prefix _

theorem numberOf_ne_nil_iff : numberOf t ≠ [] ↔ (t.headD '\x00').isDigit = true := by
  cases t with
  | nil => decide
  | cons c t =>
    rw [numberOf, takeWhile_cons, headD_cons]
    split_ifs with digit <;> simp [digit]

theorem atoi_numberOf (some : numberOf t ≠ []) : atoi (numberOf t) = digits (numberOf t) :=
  atoi_short (fun _ member => mem_takeWhile_imp (mem_of_mem_take member)) (length_take_le _ _) some

theorem behind_cases (t : Text) :
    (∃ rest, t = '{' :: rest ∧ unclosed ('$' :: t) = (numberOf rest != [] && !closes rest) ∧
        reference? t = if numberOf rest ≠ [] ∧ closes rest = true then
          some (numberOf rest, (numberOf rest).length + 2) else none) ∨
      t.headD '\x00' ≠ '{' ∧ unclosed ('$' :: t) = false ∧
        reference? t = if numberOf t ≠ [] then some (numberOf t, (numberOf t).length) else none := by
  unfold reference?
  split
  case h_1 rest => exact .inl ⟨rest, rfl, rfl, rfl⟩
  case h_2 bare =>
    refine .inr ⟨fun opens => ?_, ?_, rfl⟩
    · cases t with
      | nil => cases opens
      | cons c t => exact bare t (congrArg (· :: t) opens)
    · unfold unclosed
      split
      next same =>
        exact absurd (List.cons.inj same).2 (bare _)
      · rfl

theorem pass_dollar (at_ : p.At x ('$' :: t)) (room : w.length < p.limit) :
    p.pass ⟨x, [], w⟩ = .inl (match reference? t with
      | some (number, taken) =>
        ⟨x + 1 + taken, [], w ++ (p.replacement number).take (p.limit - w.length)⟩
      | none => if unclosed ('$' :: t) then ⟨x + 3, numberOf t.tail, w ++ [t.tail.headD '\x00']⟩
        else ⟨x + 1, [], w ++ ['$']⟩) := by
  have here : p.char x = '$' := at_.char
  have behind : p.At (x + 1) t := at_.drop (n := 1) (by simp)
  have goes : p.pass ⟨x, [], w⟩ = .inl (p.dollar ⟨x, [], w⟩) := by
    have inside : x < p.data.length := by simp [← at_.inside]
    rw [pass, if_pos ⟨room, inside⟩, if_pos here]
  have copies : p.copy ⟨x, [], w⟩ = ⟨x + 1, [], w ++ ['$']⟩ := by rw [copy, here]
  rw [goes, dollar]
  obtain ⟨rest, rfl, loose, refers⟩ | ⟨bare, closed, refers⟩ := behind_cases t
  · have starts : p.At (x + 2) rest := behind.drop (n := 1) (by simp)
    have brace : (p.char (x + 1) == '{') = true := by rw [behind.char]; rfl
    have shut : (p.char (x + 2 + (numberOf rest).length) != '}') = !closes rest := by
      rw [(starts.drop (numberOf_front rest).length_le).char, closes]
      cases rest.drop (numberOf rest).length <;> rfl
    simp only [brace, if_true, starts.char, ← numberOf_ne_nil_iff, refers, loose]
    by_cases none : numberOf rest = []
    · simp [none, copies]
    · have positive := length_pos_of_ne_nil none
      rw [if_pos none, reference]
      simp only [length_nil, Nat.sub_zero, starts.digits, nil_append, shut, Bool.true_and]
      cases closes rest with
      | true =>
        have place : x + 2 + (numberOf rest).length + 1 = x + 1 + ((numberOf rest).length + 2) := by omega
        simp [none, place]
      | false =>
        have back : sizeSub (x + 2 + (numberOf rest).length) ((numberOf rest).length - 1) = x + 3 := by
          rw [sizeSub, if_pos (by omega)]
          omega
        have first : sizeSub (x + 3) 1 = x + 2 := if_pos (by omega)
        simp [none, back, first, starts.char]
  · have brace : (p.char (x + 1) == '{') = false := by rw [behind.char, beq_eq_false_iff_ne]; exact bare
    simp only [brace, Bool.false_eq_true, if_false]
    rw [behind.char, refers, closed]
    by_cases none : numberOf t = []
    · have other := mt numberOf_ne_nil_iff.mpr (not_not.mpr none)
      rw [if_neg other, if_neg (not_not.mpr none), copies]
      rfl
    · rw [if_pos (numberOf_ne_nil_iff.mp none), if_pos none, reference]
      simp only [length_nil, Nat.sub_zero, behind.digits, nil_append, Bool.false_and,
        Bool.false_eq_true, if_false]

theorem dollar_not_mem_numberOf (t : Text) : '$' ∉ numberOf t := fun member =>
  absurd (mem_takeWhile_imp (mem_of_mem_take member)) (by decide)

theorem reference?_some {number : Text} {taken : Nat} (found : reference? t = some (number, taken)) :
    atoi number = digits number ∧ taken ≤ t.length ∧ '$' ∉ t.take taken ∧
      unclosed ('$' :: t) = false := by
  obtain ⟨rest, rfl, loose, refers⟩ | ⟨bare, closed, refers⟩ := behind_cases t
  · rw [refers] at found
    split_ifs at found with closed
    obtain ⟨rfl, rfl⟩ := Prod.mk.inj (Option.some.inj found)
    have front : rest.take ((numberOf rest).length + 1) = numberOf rest ++ ['}'] := by
      have shut : (rest.drop (numberOf rest).length).head? = some '}' := by
        simpa [closes] using closed.2
      rw [take_add_one, ← prefix_iff_eq_take.mp (numberOf_front rest), ← head?_drop,
        shut]
      rfl
    have length := congrArg List.length front
    rw [length_take, length_append, length_singleton] at length
    refine ⟨atoi_numberOf closed.1, ?_, ?_, by simp [loose, closed.2]⟩
    · rw [length_cons]
      omega
    · rw [take_succ_cons, front]
      simp [dollar_not_mem_numberOf]
  · rw [refers] at found
    split_ifs at found with some
    obtain ⟨rfl, rfl⟩ := Prod.mk.inj (Option.some.inj found)
    refine ⟨atoi_numberOf some, (numberOf_front t).length_le, ?_, closed⟩
    rw [← prefix_iff_eq_take.mp (numberOf_front t)]
    exact dollar_not_mem_numberOf t

theorem unclosed_digit (loose : unclosed ('$' :: t) = true) : (t.tail.headD '\x00').isDigit = true := by
  obtain ⟨rest, rfl, open_, -⟩ | ⟨-, closed, -⟩ := behind_cases t
  · rw [open_, Bool.and_eq_true, bne_iff_ne] at loose
    exact numberOf_ne_nil_iff.mp loose.1
  · exact absurd loose (by rw [closed]; decide)

/-! ### The loop -/

theorem returns_extends {s : Substituting} {text : Text} (returned : Returns p.pass s text) :
    s.written <+: text := by
  obtain ⟨n, ends⟩ := returned
  induction n generalizing s with
  | zero => cases ends
  | succ n ih =>
    cases goes : p.pass s with
    | inl next =>
      rw [runFor_goes goes] at ends
      obtain ⟨more, written, -⟩ := pass_writes goes
      exact (written ▸ prefix_append _ _).trans (ih ends)
    | inr out =>
      rw [runFor_returns goes] at ends
      unfold pass at goes
      split_ifs at goes
      rw [← Option.some.inj ends, ← Sum.inr.inj goes]
      exact prefix_append _ _

theorem closed_cons {c : Char} : Closed (c :: t) ↔ unclosed (c :: t) = false ∧ Closed t := by
  simp [Closed]

theorem closed_drop {n : Nat} (plain : '$' ∉ t.take n) : Closed (t.drop n) ↔ Closed t := by
  induction t generalizing n with
  | nil => rw [drop_nil]
  | cons c t ih =>
    cases n with
    | zero => rfl
    | succ n =>
      rw [take_succ_cons, mem_cons, not_or] at plain
      have first : unclosed (c :: t) = false := by
        unfold unclosed
        split
        next same =>
          exact absurd (List.cons.inj same).1.symm plain.1
        · rfl
      rw [drop_succ_cons, ih plain.2, closed_cons, and_iff_right first]

theorem Known.suffix {captures : List Text} {s : Text} (all : Known captures t) (ends : s <:+ t) :
    Known captures s := fun u member =>
  all u ((mem_tails _ _).mpr (((mem_tails _ _).mp member).trans ends))

theorem returns_iff (known : Known p.captures t) (at_ : p.At x t)
    (room : (w ++ substituted p.captures 0 t).length < p.limit) :
    Returns p.pass ⟨x, [], w⟩ (w ++ substituted p.captures 0 t ++ ['\x00']) ↔ Closed t := by
  induction hn : t.length using Nat.strong_induction_on generalizing x t w with
  | _ n ih =>
  cases t with
  | nil =>
    have ends : p.pass ⟨x, [], w⟩ = .inr (w ++ ['\x00']) := by
      unfold pass
      rw [if_neg fun goes => absurd goes.2 (by simp [← at_.inside])]
    simp only [substituted, append_nil]
    exact iff_of_true ⟨1, runFor_returns ends 0⟩ (by decide)
  | cons c t =>
    have behind : p.At (x + 1) t := at_.drop (n := 1) (by simp)
    have within : w.length < p.limit := by
      rw [length_append] at room
      omega
    -- a pass that writes `text` and goes on behind `taken` characters that hold no reference
    have goes_on {text : Text} {taken : Nat} (inside : taken ≤ t.length)
        (passes : p.pass ⟨x, [], w⟩ = .inl ⟨x + 1 + taken, [], w ++ text⟩)
        (same : substituted p.captures 0 (c :: t) = text ++ substituted p.captures 0 (t.drop taken))
        (plain : '$' ∉ t.take taken) (first : unclosed (c :: t) = false) :
        Returns p.pass ⟨x, [], w⟩ (w ++ substituted p.captures 0 (c :: t) ++ ['\x00']) ↔
          Closed (c :: t) := by
      have shorter : (t.drop taken).length < n := by
        rw [← hn, length_drop, length_cons]
        omega
      have later := known.suffix ((drop_suffix taken t).trans (suffix_cons _ _))
      rw [same, ← append_assoc] at room ⊢
      rw [returns_goes passes, ih _ shorter later (behind.drop inside) room rfl, closed_drop plain,
        closed_cons, and_iff_right first]
    by_cases dollar : c = '$'
    · subst dollar
      have passes := pass_dollar at_ within
      have same : substituted p.captures 0 ('$' :: t) = match reference? t with
          | some (number, taken) =>
            p.captures.getD (digits number) [] ++ substituted p.captures 0 (t.drop taken)
          | none => '$' :: substituted p.captures 0 t := by
        simp only [substituted, if_true, substituted_skip p.captures _ t]
      cases found : reference? t with
      | some reference =>
        obtain ⟨number, taken⟩ := reference
        obtain ⟨value, inside, plain, first⟩ := reference?_some found
        rw [found] at passes same
        dsimp only at passes
        have capture : p.replacement number = p.captures.getD (digits number) [] := by
          have here := known ('$' :: t) (by simp)
          simp only [RegexSubstitution.known, found, Option.elim_some, Bool.or_eq_true, decide_eq_true_eq,
            beq_iff_eq] at here
          rw [replacement, value]
          split_ifs with far
          · exact (here.resolve_left (by omega)).symm
          · rfl
        rw [same, length_append, length_append] at room
        rw [capture, take_of_length_le (by omega)] at passes
        exact goes_on inside passes same plain first
      | none =>
        rw [found] at passes same
        cases loose : unclosed ('$' :: t) with
        | false =>
          rw [loose] at passes
          exact goes_on (Nat.zero_le _) passes same (by simp) loose
        | true =>
          rw [loose] at passes
          rw [returns_goes passes, closed_cons, loose]
          refine iff_of_false (fun returned => ?_) (fun closed => absurd closed.1 (by decide))
          have extends_ := returns_extends returned
          rw [same, append_assoc, if_pos rfl, prefix_append_right_inj, cons_append]
            at extends_
          have digit := unclosed_digit loose
          rw [(cons_prefix_cons.mp extends_).1] at digit
          exact absurd digit (by decide)
    · have first : unclosed (c :: t) = false := by
        unfold unclosed
        split
        next begins =>
          exact absurd (List.cons.inj begins).1 dollar
        · rfl
      have here : p.char x = c := at_.char
      have passes : p.pass ⟨x, [], w⟩ = .inl ⟨x + 1, [], w ++ [c]⟩ := by
        have inside : x < p.data.length := by simp [← at_.inside]
        rw [pass, if_pos ⟨within, inside⟩, here, if_neg dollar, copy, here]
      exact goes_on (Nat.zero_le _) passes (by rw [substituted, if_neg dollar]; rfl) (by simp) first

end Passes

/-- **Captures are put in the place of their references, and all else is copied**, exactly where no
`${N` lacks its bracket. -/
theorem substitution_right (room : (substituted p.captures 0 p.data).length + 1 < p.len) :
    (Closed p.data → Known p.captures p.data → p.Right) ∧
      (p.captures.length ≤ 257 → (p.Right ↔ Closed p.data)) := by
  have last : p.limit = p.len - 1 := by
    rw [limit, sizeSub, if_pos (by omega)]
  have exact_ (known : Known p.captures p.data) : p.Right ↔ Closed p.data := by
    have all := @returns_iff p 0 p.data [] known rfl (by rw [nil_append]; omega)
    rwa [nil_append] at all
  refine ⟨fun closed known => (exact_ known).mpr closed, fun few => exact_ fun t _ => ?_⟩
  unfold known
  split
  next behind _ =>
    cases reference? behind with
    | none => rfl
    | some found =>
      simp only [Option.elim_some, Bool.or_eq_true, decide_eq_true_eq, beq_iff_eq]
      refine (Nat.lt_or_ge 256 (digits found.1)).symm.imp_right fun far => ?_
      rw [getD_eq_default _ _ (by omega)]
  · rfl

/-- A number with and without brackets, and a `$` and a `${` that are none. -/
theorem substitution_right_pair :
    let p : RegexSubstitution := ⟨["ab", "b"], "<$1>$\x7b0\x7d$x$\x7by", 32, fun _ => 'z'⟩
    substituted p.captures 0 p.data = "<b>ab$x$\x7by" ∧ p.Right := by
  intro p
  exact ⟨by decide, ((substitution_right (by decide)).2 (by decide)).mpr (by decide)⟩

/-- **A `${` is lost, and the digits behind it are taken for those of the next reference.** -/
theorem unclosed_number_lost :
    let p : RegexSubstitution := ⟨["ab", "b"], "$\x7b1x$0", 32, fun _ => 'z'⟩
    substituted p.captures 0 p.data = "$\x7b1xab" ∧
      Returns p.pass start "1x\x00" ∧ ¬ p.Right := by
  intro p
  have returned : Returns p.pass start "1x\x00" := ⟨4, by decide⟩
  exact ⟨by decide, returned, fun right => absurd (right.unique returned) (by decide)⟩

end RegexSubstitution

end FreeSwitch
