/-
**Escaped references.**

A `$` behind an odd run of backslashes is escaped. The head of the loop respects that; the tail,
which copies the byte behind a reference, takes a backslash there for an ordinary byte, and what it
escapes is expanded.

* `stays_literal_iff`: which inputs stay literal.
-/

import FreeSwitch.Expand.Expander

namespace FreeSwitch

open CString List Option

/-! ### Backslashes -/

def leading : Text → Nat
  | '\\' :: rest => leading rest + 1
  | _ => 0

def unslashed : Text → Text
  | '\\' :: rest => unslashed rest
  | rest => rest

def Escaped (before : Text) : Prop := leading before.reverse % 2 = 1

instance (before : Text) : Decidable (Escaped before) :=
  inferInstanceAs (Decidable (_ % 2 = 1))

def startsReference (text : Text) : Bool :=
  match text with
  | '$' :: '$' :: '{' :: _ => true
  | '$' :: '{' :: _ => true
  | _ => false

def EscapedReference (text : Text) : Prop :=
  leading text % 2 = 1 ∧ startsReference (unslashed text) = true

instance (text : Text) : Decidable (EscapedReference text) :=
  inferInstanceAs (Decidable (_ ∧ _))

variable {c : Char} {before rest taken text : Text} {token : Token}

theorem leading_cons_of_ne (other : c ≠ '\\') (rest : Text) : leading (c :: rest) = 0 := by
  unfold leading
  split
  · next same => exact absurd (List.cons.inj same).1 other
  · rfl

theorem unslashed_cons_of_ne (other : c ≠ '\\') (rest : Text) :
    unslashed (c :: rest) = c :: rest := by
  unfold unslashed
  split
  · next same => exact absurd (List.cons.inj same).1 other
  · rfl

@[simp] theorem leading_cons (rest : Text) : leading ('\\' :: rest) = leading rest + 1 := rfl

@[simp] theorem unslashed_cons (rest : Text) : unslashed ('\\' :: rest) = unslashed rest := rfl

theorem escaped_snoc (before : Text) : Escaped (before ++ ['\\']) ↔ ¬ Escaped before := by
  unfold Escaped
  rw [reverse_append, reverse_singleton, singleton_append, leading_cons]
  omega

theorem escaped_two (before : Text) : Escaped (before ++ ['\\', '\\']) ↔ Escaped before := by
  have twice := escaped_snoc (before ++ ['\\'])
  rw [append_assoc, escaped_snoc, not_not] at twice
  exact twice

theorem not_escaped_snoc (other : c ≠ '\\') (before : Text) :
    ¬ Escaped (before ++ [c]) := by
  unfold Escaped
  rw [reverse_append, reverse_singleton, singleton_append, leading_cons_of_ne other]
  decide

/-! ### The head of the loop -/

/-- The loop is at the end of `before`, and no reference can start at an escaped `$` before the next
byte that is no backslash. -/
def InStep (before text : Text) : Prop :=
  Escaped before → ¬ (leading text % 2 = 0 ∧ startsReference (unslashed text) = true)

theorem InStep.of_not_escaped (free : ¬ Escaped before) : InStep before text :=
  fun escaped => absurd escaped free

theorem InStep.of_last (front : Text) (other : c ≠ '\\') : InStep (before ++ (front ++ [c])) text := by
  refine .of_not_escaped ?_
  rw [← append_assoc]
  exact not_escaped_snoc other _

theorem InStep.of_end (before : Text) : InStep before [] := fun _ => by simp [unslashed, startsReference]

theorem refBody_split (first : Bool) (br : Nat) (text : Text) (opened : 0 < br) :
    text = (refBody first br text).1 ++ '}' :: (refBody first br text).2.2 ∨
      (text = (refBody first br text).1 ∧ (refBody first br text).2.2 = []) := by
  induction text generalizing first br with
  | nil => exact .inr ⟨rfl, rfl⟩
  | cons c rest ih =>
    unfold refBody
    split
    · next closed => exact .inl (by rw [closed.2]; rfl)
    · next still =>
      have positive : 0 < if !first && c = '{' then br + 1
          else if 1 < br && c = '}' then br - 1 else br := by
        split_ifs with deeper back
        · omega
        · simp only [Bool.and_eq_true, decide_eq_true_eq] at back
          omega
        · exact opened
      rcases ih false _ positive with closed | ⟨whole, ends⟩
      · exact .inl (congrArg (c :: ·) closed)
      · exact .inr ⟨congrArg (c :: ·) whole, ends⟩

/-- The token at the head of the loop, the bytes it takes and the text behind. -/
inductive Head : Token → Text → Text → Prop where
  | escaped (rest : Text) : Head (.raw '$') ['\\', '$'] rest
  | escapedTwo (rest : Text) : Head (.raw '$') ['\\', '$', '$'] rest
  | quote (rest : Text) : Head .skip ['\\', '\x27'] rest
  | backslash (rest : Text) : Head (.raw '\\') ['\\', '\\'] rest
  | lone {rest : Text} (apart : ∀ c ∈ rest.head?, c ≠ '$' ∧ c ≠ '\\') :
      Head (.copy '\\') ['\\'] rest
  | dollars {rest : Text} (apart : rest.head? ≠ some '{') : Head (.raw '$') ['$', '$'] rest
  | dollar {rest : Text} (apart : ∀ c ∈ rest.head?, c ≠ '$' ∧ c ≠ '{') : Head (.raw '$') ['$'] rest
  | plain {c : Char} (other : c ≠ '\\' ∧ c ≠ '$') (rest : Text) : Head (.copy c) [c] rest
  | reference {global : Bool} {body : Text} {br : Nat} {taken rest : Text}
      (starts : startsReference (taken ++ rest) = true)
      (ends : (∃ text, taken = text ++ ['}']) ∨ rest = []) :
      Head (.ref global body br) taken rest

theorem upTo_append (taken rest : Text) : upTo (taken ++ rest) rest = taken := by
  simp [upTo]

theorem head_refToken (global : Bool) (opening text : Text)
    (starts : startsReference (opening ++ text) = true) :
    ∃ taken, opening ++ text = taken ++ (refToken global text).2 ∧
      Head (refToken global text).1 taken (refToken global text).2 := by
  rcases refBody_split true 1 text Nat.one_pos with closed | ⟨whole, ends⟩
  · have split : opening ++ text =
        (opening ++ (refBody true 1 text).1 ++ ['}']) ++ (refToken global text).2 := by
      simpa [refToken] using congrArg (opening ++ ·) closed
    exact ⟨_, split, .reference (split ▸ starts) (.inl ⟨_, rfl⟩)⟩
  · have split : opening ++ text = (opening ++ text) ++ (refToken global text).2 := by
      simp [refToken, ends]
    exact ⟨_, split, .reference (split ▸ starts) (.inr ends)⟩

theorem head_ne {d : Char} (apart : ∀ tail, rest = d :: tail → False) (member : c ∈ rest.head?) :
    c ≠ d := by
  rintro rfl
  obtain ⟨tail, rfl⟩ := head?_eq_some_iff.mp member
  exact apart tail rfl

theorem head_of_next (found : nextToken text = some (token, rest)) :
    ∃ taken, text = taken ++ rest ∧ Head token taken rest := by
  cases text with
  | nil => exact absurd found (by simp [nextToken])
  | cons c tail =>
    replace found := some.inj found
    split_ifs at found with backslash dollar
    · subst backslash
      split at found <;> obtain ⟨rfl, rfl⟩ := Prod.mk.inj found
      · exact ⟨_, rfl, .escapedTwo _⟩
      · exact ⟨_, rfl, .escaped _⟩
      · exact ⟨_, rfl, .quote _⟩
      · exact ⟨_, rfl, .backslash _⟩
      · next notTwo notOne notQuote notBackslash =>
        exact ⟨['\\'], rfl, .lone fun c member => ⟨head_ne notOne member, head_ne notBackslash member⟩⟩
    · subst dollar
      split at found
      · next text =>
        have reference := head_refToken true ['$', '$', '{'] text rfl
        rw [found] at reference
        exact reference
      · next text apart =>
        obtain ⟨rfl, rfl⟩ := Prod.mk.inj found
        exact ⟨['$', '$'], rfl, .dollars fun same => head_ne apart same rfl⟩
      · next text =>
        have reference := head_refToken false ['$', '{'] text rfl
        rw [found] at reference
        exact reference
      · next notTwo notOne notBracket =>
        obtain ⟨rfl, rfl⟩ := Prod.mk.inj found
        exact ⟨['$'], rfl, .dollar fun c member => ⟨head_ne notOne member, head_ne notBracket member⟩⟩
    · obtain ⟨rfl, rfl⟩ := Prod.mk.inj found
      exact ⟨[c], rfl, .plain ⟨backslash, dollar⟩ _⟩

theorem inStep_next (head : Head token taken rest) (step : InStep before (taken ++ rest)) :
    InStep (before ++ taken) rest := by
  cases head with
  | escapedTwo => exact .of_last ['\\', '$'] (by decide)
  | backslash =>
    -- two backslashes change neither parity
    intro escaped
    have before' := step ((escaped_two before).mp escaped)
    simp only [cons_append, nil_append, leading_cons, unslashed_cons] at before'
    intro starts
    exact before' ⟨by omega, starts.2⟩
  | lone apart =>
    intro _ starts
    cases rest with
    | nil => exact absurd starts.2 (by simp [unslashed, startsReference])
    | cons c rest =>
      obtain ⟨notDollar, notBackslash⟩ := apart c rfl
      rw [unslashed_cons_of_ne notBackslash] at starts
      exact absurd starts.2 (by simp [startsReference, notDollar])
  | dollars => exact .of_last ['$'] (by decide)
  | dollar => exact .of_last [] (by decide)
  | plain other => exact .of_last [] other.1
  | reference starts ends =>
    rcases ends with ⟨text, rfl⟩ | rfl
    · exact .of_last text (by decide)
    · exact .of_end _
  | escaped | quote => exact .of_last ['\\'] (by decide)

/-! ### The passes of the loop -/

@[simp] theorem scan_nil (before : Text) : scan before [] = [] := by
  rw [scan]
  rfl

theorem scan_found (found : nextToken (taken ++ rest) = some (token, rest)) (before : Text) :
    scan before (taken ++ rest) = ⟨before, token, rest⟩ ::
      if token.isRef then
        ⟨before ++ taken, (tailToken rest).1, (tailToken rest).2⟩ ::
          scan (before ++ taken ++ upTo rest (tailToken rest).2) (tailToken rest).2
      else scan (before ++ taken) rest := by
  rw [scan]
  split
  · next none => exact absurd (none.symm.trans found) (by simp)
  · next token' rest' found' =>
    obtain ⟨rfl, rfl⟩ := Prod.mk.inj (some.inj (found'.symm.trans found))
    simp only [upTo_append]

theorem scan_token (found : nextToken (taken ++ rest) = some (token, rest))
    (other : token.isRef = false) (before : Text) :
    scan before (taken ++ rest) = ⟨before, token, rest⟩ :: scan (before ++ taken) rest := by
  rw [scan_found found, other]
  rfl

theorem scan_ref (found : nextToken (taken ++ rest) = some (token, rest))
    (reference : token.isRef = true) (before : Text) :
    scan before (taken ++ rest) = ⟨before, token, rest⟩ ::
      ⟨before ++ taken, (tailToken rest).1, (tailToken rest).2⟩ ::
      scan (before ++ taken ++ upTo rest (tailToken rest).2) (tailToken rest).2 := by
  rw [scan_found found, if_pos reference]

@[elab_as_elim]
theorem scan_induction {motive : Text → Text → Prop} (stop : ∀ before, motive before [])
    (token : ∀ before taken rest token, nextToken (taken ++ rest) = some (token, rest) →
      Head token taken rest → token.isRef = false → motive (before ++ taken) rest →
      motive before (taken ++ rest))
    (ref : ∀ before taken rest token, nextToken (taken ++ rest) = some (token, rest) →
      Head token taken rest → token.isRef = true →
      motive (before ++ taken ++ upTo rest (tailToken rest).2) (tailToken rest).2 →
      motive before (taken ++ rest)) (before text : Text) : motive before text := by
  induction before, text using scan.induct with
  | case1 before text none =>
    cases text with
    | nil => exact stop before
    | cons c text => exact absurd none (by simp [nextToken])
  | case2 before text found rest next reached afterTail after =>
    obtain ⟨taken, rfl, head⟩ := head_of_next next
    have there : reached = before ++ taken := by
      show before ++ upTo (taken ++ rest) rest = before ++ taken
      rw [upTo_append]
    rw [there] at afterTail after
    cases reference : found.isRef with
    | false => exact token before taken rest found next head reference after
    | true => exact ref before taken rest found next head reference afterTail

theorem tailToken_cases (rest : Text) :
    (rest = [] ∧ tailToken rest = (.copy '\x00', [])) ∨
    (∃ more, rest = '$' :: more ∧ tailToken rest = (.room, rest)) ∨
    ∃ c more, c ≠ '$' ∧ rest = c :: more ∧ tailToken rest = (.copy c, more) := by
  cases rest with
  | nil => exact .inl ⟨rfl, rfl⟩
  | cons c more =>
    by_cases dollar : c = '$'
    · subst dollar
      exact .inr (.inl ⟨more, rfl, rfl⟩)
    · exact .inr (.inr ⟨c, more, dollar, rfl, if_neg dollar⟩)

theorem tailToken_isRef (rest : Text) : (tailToken rest).1.isRef = false := by
  rcases tailToken_cases rest with ⟨_, same⟩ | ⟨_, _, same⟩ | ⟨_, _, _, _, same⟩ <;> rw [same] <;> rfl

theorem upTo_self (text : Text) : upTo text text = [] := by simp [upTo]

theorem upTo_cons (c : Char) (text : Text) : upTo (c :: text) text = [c] := by simp [upTo]

theorem tailToken_takes (c : Char) (v text : Text) :
    ∃ w, upTo (c :: v ++ text) (tailToken (c :: v ++ text)).2 ++ w = c :: v ∧
      (tailToken (c :: v ++ text)).2 = w ++ text := by
  by_cases dollar : c = '$'
  · refine ⟨c :: v, ?_⟩
    have room : tailToken (c :: v ++ text) = (.room, c :: v ++ text) := by simp [tailToken, dollar]
    rw [room, upTo_self]
    exact ⟨rfl, rfl⟩
  · refine ⟨v, ?_⟩
    have copy : tailToken (c :: v ++ text) = (.copy c, v ++ text) := by simp [tailToken, dollar]
    rw [copy, cons_append, upTo_cons]
    exact ⟨rfl, rfl⟩

theorem inStep_tail (head : Head token taken rest) (reference : token.isRef = true)
    (apart : ¬ EscapedReference rest) :
    InStep (before ++ taken ++ upTo rest (tailToken rest).2) (tailToken rest).2 := by
  cases head with
  | reference starts ends =>
    rcases tailToken_cases rest with ⟨rfl, same⟩ | ⟨more, rfl, same⟩ | ⟨c, more, _, rfl, same⟩
    · exact same ▸ .of_end _
    · obtain ⟨text, rfl⟩ | none := ends
      · rw [same, upTo_self, append_nil]
        exact .of_last text (by decide)
      · exact absurd none (by simp)
    · rw [same, upTo_cons]
      by_cases backslash : c = '\\'
      · subst backslash
        intro _ starts
        have even : leading more % 2 = 0 := starts.1
        refine apart ⟨?_, starts.2⟩
        rw [leading_cons]
        omega
      · exact .of_not_escaped (not_escaped_snoc backslash _)
  | _ => exact Bool.noConfusion reference

/-! ### Staying literal -/

theorem forall_refs_token {P : Pass → Prop} (found : nextToken (taken ++ rest) = some (token, rest))
    (other : token.isRef = false) :
    (∀ pass ∈ scan before (taken ++ rest), pass.token.isRef = true → P pass) ↔
      ∀ pass ∈ scan (before ++ taken) rest, pass.token.isRef = true → P pass := by
  rw [scan_token found other, forall_mem_cons]
  simp [other]

theorem forall_refs_ref {P : Pass → Prop} (found : nextToken (taken ++ rest) = some (token, rest))
    (reference : token.isRef = true) :
    (∀ pass ∈ scan before (taken ++ rest), pass.token.isRef = true → P pass) ↔
      P ⟨before, token, rest⟩ ∧
        ∀ pass ∈ scan (before ++ taken ++ upTo rest (tailToken rest).2) (tailToken rest).2,
          pass.token.isRef = true → P pass := by
  rw [scan_ref found reference, forall_mem_cons, forall_mem_cons]
  simp [reference, tailToken_isRef]

def NoEscapeBehind (passes : List Pass) : Prop :=
  ∀ pass ∈ passes, pass.token.isRef = true → ¬ EscapedReference pass.after

/-- No reference starts at an escaped `$`. -/
def StartsFree (passes : List Pass) : Prop :=
  ∀ pass ∈ passes, pass.token.isRef = true → ¬ Escaped pass.before

theorem startsFree_of_inStep (before text : Text) (step : InStep before text)
    (apart : NoEscapeBehind (scan before text)) : StartsFree (scan before text) := by
  induction before, text using scan_induction with
  | stop before => simp [StartsFree]
  | token before taken rest token found head other ih =>
    exact (forall_refs_token found other).mpr
      (ih (inStep_next head step) ((forall_refs_token found other).mp apart))
  | ref before taken rest token found head reference ih =>
    obtain ⟨behind, later⟩ := (forall_refs_ref found reference).mp apart
    refine (forall_refs_ref found reference).mpr
      ⟨fun escaped => ?_, ih (inStep_tail head reference behind) later⟩
    -- the reference itself starts at a `$` with no backslash left to count
    cases head with
    | reference starts ends =>
      have none : leading (taken ++ rest) = 0 ∧ unslashed (taken ++ rest) = taken ++ rest := by
        cases shape : taken ++ rest with
        | nil => exact ⟨rfl, rfl⟩
        | cons c text =>
          have other : c ≠ '\\' := by
            rintro rfl
            rw [shape] at starts
            exact absurd starts (by simp [startsReference])
          exact ⟨leading_cons_of_ne other text, unslashed_cons_of_ne other text⟩
      exact step escaped ⟨by rw [none.1], by rw [none.2]; exact starts⟩
    | _ => exact Bool.noConfusion reference

theorem nextToken_startsReference (starts : startsReference text = true) :
    ∃ token rest, nextToken text = some (token, rest) ∧ token.isRef = true := by
  unfold startsReference at starts
  split at starts
  · exact ⟨_, _, rfl, rfl⟩
  · exact ⟨_, _, rfl, rfl⟩
  · exact Bool.noConfusion starts

theorem exists_escaped_reference (before text : Text) (escaped : Escaped before)
    (even : leading text % 2 = 0) (starts : startsReference (unslashed text) = true) :
    ∃ pass ∈ scan before text, pass.token.isRef = true ∧ Escaped pass.before := by
  cases text with
  | nil => exact absurd starts (by simp [unslashed, startsReference])
  | cons c rest =>
    by_cases backslash : c = '\\'
    · subst backslash
      have one : leading rest % 2 = 1 := by
        rw [leading_cons] at even
        omega
      cases rest with
      | nil => exact absurd one (by simp [leading])
      | cons d rest =>
        have second : d = '\\' := by
          by_contra other
          rw [leading_cons_of_ne other] at one
          exact absurd one (by decide)
        subst second
        -- the two are written as one, and the count before the loop stays odd
        have found : nextToken (['\\', '\\'] ++ rest) = some (.raw '\\', rest) := rfl
        have fewer : leading rest % 2 = 0 := by
          rw [leading_cons] at one
          omega
        obtain ⟨pass, member, both⟩ := exists_escaped_reference (before ++ ['\\', '\\']) rest
          ((escaped_two before).mpr escaped) fewer starts
        have first := scan_token found rfl before
        exact ⟨pass, first ▸ mem_cons_of_mem _ member, both⟩
    · rw [unslashed_cons_of_ne backslash] at starts
      obtain ⟨token, after, found, reference⟩ := nextToken_startsReference starts
      obtain ⟨taken, split, -⟩ := head_of_next found
      rw [split] at found ⊢
      rw [scan_ref found reference]
      exact ⟨_, mem_cons_self, reference, escaped⟩
termination_by text.length

theorem noEscapeBehind_of_startsFree (before text : Text)
    (free : StartsFree (scan before text)) : NoEscapeBehind (scan before text) := by
  induction before, text using scan_induction with
  | stop before => simp [NoEscapeBehind]
  | token before taken rest token found head other ih =>
    exact (forall_refs_token found other).mpr (ih ((forall_refs_token found other).mp free))
  | ref before taken rest token found head reference ih =>
    have later := ((forall_refs_ref found reference).mp free).2
    refine (forall_refs_ref found reference).mpr ⟨?_, ih later⟩
    rintro ⟨odd, starts⟩
    cases rest with
    | nil => exact absurd odd (by simp [leading])
    | cons c more =>
      have backslash : c = '\\' := by
        by_contra other
        rw [leading_cons_of_ne other] at odd
        exact absurd odd (by decide)
      subst backslash
      have tail : tailToken ('\\' :: more) = (.copy '\\', more) := rfl
      rw [tail, upTo_cons] at later
      have escaped : Escaped (before ++ taken ++ ['\\']) := by
        cases head with
        | reference _ ends =>
          obtain ⟨text, rfl⟩ | none := ends
          · have bracket := not_escaped_snoc (c := '}') (by decide) (before ++ text)
            exact (escaped_snoc _).mpr (by simpa using bracket)
          · exact absurd none (by simp)
        | _ => exact Bool.noConfusion reference
      have even : leading more % 2 = 0 := by
        rw [leading_cons] at odd
        omega
      obtain ⟨bad, found, isRef, there⟩ := exists_escaped_reference _ more escaped even starts
      exact later bad found isRef there

/-! ### What is written -/

/-- The position `n` of the input is not inside a reference. -/
def OutsideReferences (length : Nat) (passes : List Pass) (n : Nat) : Prop :=
  ∀ pass ∈ passes, pass.token.isRef = true →
    n < pass.before.length ∨ length - pass.after.length ≤ n

theorem Head.taken_of_backslash (head : Head token taken rest) (other : token.isRef = false)
    {u w : Text} (split : taken = c :: (u ++ '\\' :: w)) :
    taken = ['\\', '\\'] ∧ c = '\\' ∧ u = [] ∧ w = [] := by
  have member : '\\' ∈ taken.tail := by simp [split]
  cases head with
  | backslash =>
    obtain ⟨rfl, split⟩ := List.cons.inj split
    have lengths := congrArg List.length split
    simp only [length_append, length_cons, length_nil] at lengths
    have none : u = [] ∧ w = [] :=
      ⟨eq_nil_of_length_eq_zero (by omega), eq_nil_of_length_eq_zero (by omega)⟩
    exact ⟨rfl, rfl, none⟩
  | reference => exact Bool.noConfusion other
  | _ => exact absurd member (by simp)

theorem cut_twice {a b u t : Text} (same : a ++ b = u ++ t) :
    (∃ v, u = a ++ v ∧ b = v ++ t) ∨ ∃ c v, a = u ++ c :: v ∧ t = c :: (v ++ b) := by
  rcases append_eq_append_iff.mp same with ⟨v, shape, behind⟩ | ⟨v, shape, behind⟩
  · exact .inl ⟨v, shape, behind⟩
  · cases v with
    | nil => exact .inl ⟨[], by simpa using shape.symm, by simpa using behind.symm⟩
    | cons c v => exact .inr ⟨c, v, shape, behind⟩

theorem scan_reaches {word : Text} (before text : Text) (step : InStep before text)
    (apart : NoEscapeBehind (scan before text)) {u : Text}
    (split : text = u ++ '\\' :: '$' :: '{' :: word) (free : ¬ Escaped (before ++ u))
    (outside : OutsideReferences (before ++ text).length (scan before text) (before ++ u).length) :
    ∃ front, scan before text = front ++ scan (before ++ u) ('\\' :: '$' :: '{' :: word) ∧
      ∀ pass ∈ front, pass.before.length < (before ++ u).length := by
  induction before, text using scan_induction generalizing u with
  | stop before => exact absurd split (by simp)
  | token before taken rest token found head other ih =>
    have positive : 0 < taken.length := by
      have := nextToken_length found
      simp only [length_append] at this
      omega
    rcases cut_twice split with ⟨v, rfl, behind⟩ | ⟨d, v, shape, behind⟩
    · -- the pass ends in front of the backslash
      simp only [← append_assoc] at free outside ⊢
      obtain ⟨front, passes, earlier⟩ := ih (inStep_next head step)
        ((forall_refs_token found other).mp apart) behind free
        ((forall_refs_token found other).mp outside)
      rw [scan_token found other]
      refine ⟨⟨before, token, rest⟩ :: front, by rw [passes, cons_append], fun pass member => ?_⟩
      rcases mem_cons.mp member with rfl | member
      · simp only [length_append]
        omega
      · exact earlier pass member
    · obtain ⟨rfl, behind⟩ := List.cons.inj behind
      cases u with
      | nil => exact ⟨[], by rw [split]; simp, by simp⟩
      | cons c u =>
        -- the backslash would be the second of two, and then it is not the one that counts
        obtain ⟨pair, rfl, rfl, rfl⟩ := head.taken_of_backslash other shape
        rw [escaped_snoc, not_not] at free
        have text : taken ++ rest = '\\' :: '\\' :: '$' :: '{' :: word := by
          rw [pair, behind]
          rfl
        rw [text] at step
        exact absurd ⟨by simp [leading], by simp [unslashed, startsReference]⟩ (step free)
  | ref before taken rest token found head reference ih =>
    obtain ⟨behindFree, apartLater⟩ := (forall_refs_ref found reference).mp apart
    obtain ⟨whole, outsideLater⟩ := (forall_refs_ref found reference).mp outside
    have reached : taken.length ≤ u.length := by
      simp only [length_append] at whole
      omega
    rcases cut_twice split with ⟨v, rfl, behind⟩ | ⟨d, v, shape, -⟩
    · rw [scan_ref found reference]
      have inStep : InStep (before ++ taken ++ upTo rest (tailToken rest).2) (tailToken rest).2 :=
        inStep_tail head reference behindFree
      cases v with
      | nil =>
        -- the backslash would be the byte that the tail of the loop copies
        rw [nil_append] at behind
        exact absurd ⟨by simp [behind, leading], by simp [behind, unslashed, startsReference]⟩
          behindFree
      | cons c v =>
        obtain ⟨w, taken', left⟩ := tailToken_takes c v ('\\' :: '$' :: '{' :: word)
        rw [← behind] at taken' left
        have rejoined : upTo rest (tailToken rest).2 ++ (tailToken rest).2 = rest := calc
          _ = upTo rest (tailToken rest).2 ++ (w ++ '\\' :: '$' :: '{' :: word) :=
            congrArg (upTo rest (tailToken rest).2 ++ ·) left
          _ = c :: v ++ '\\' :: '$' :: '{' :: word := by rw [← append_assoc, taken']
          _ = rest := behind.symm
        have point : before ++ (taken ++ c :: v) =
            before ++ taken ++ upTo rest (tailToken rest).2 ++ w := by
          rw [← taken', append_assoc, append_assoc]
        have total : (before ++ (taken ++ rest)).length =
            (before ++ taken ++ upTo rest (tailToken rest).2 ++ (tailToken rest).2).length := by
          rw [append_assoc _ _ (tailToken rest).2, rejoined, append_assoc]
        rw [total, point] at outsideLater
        rw [point] at free ⊢
        obtain ⟨front, passes, earlier⟩ := ih inStep apartLater left free outsideLater
        refine ⟨_ :: _ :: front, by rw [passes]; rfl, fun pass member => ?_⟩
        have further : (before ++ taken).length <
            (before ++ taken ++ upTo rest (tailToken rest).2 ++ w).length := by
          rw [← point]
          simp only [length_append, length_cons]
          omega
        rcases mem_cons.mp member with rfl | member
        · exact Nat.lt_of_le_of_lt (by simp) further
        · rcases mem_cons.mp member with rfl | member
          · exact further
          · exact earlier pass member
    · rw [shape] at reached
      simp only [length_append, length_cons] at reached
      omega

/-- What the loop writes for `${name}` when it takes it for ordinary text. -/
def literalTokens (name : Text) : List Token := .raw '$' :: ('{' :: name ++ ['}']).map .copy

theorem scan_plain (plain : ∀ c ∈ text, c ≠ '$' ∧ c ≠ '\\') (before rest : Text) :
    (scan before (text ++ rest)).map Pass.token =
      text.map .copy ++ (scan (before ++ text) rest).map Pass.token := by
  induction text generalizing before with
  | nil => simp
  | cons c text ih =>
    obtain ⟨notDollar, notBackslash⟩ := plain c mem_cons_self
    have found : nextToken ([c] ++ (text ++ rest)) = some (.copy c, text ++ rest) := by
      simp [nextToken, notDollar, notBackslash]
    have first := scan_token found rfl before
    rw [singleton_append] at first
    rw [cons_append, first, map_cons, ih fun c member => plain c (.tail _ member)]
    simp

theorem scan_escaped {name : Text} (plain : ∀ c ∈ name, c ≠ '$' ∧ c ≠ '\\') (before more : Text) :
    ∃ later, (scan before ('\\' :: '$' :: '{' :: (name ++ '}' :: more))).map Pass.token =
      literalTokens name ++ later := by
  have found : nextToken (['\\', '$'] ++ '{' :: (name ++ '}' :: more)) =
      some (.raw '$', '{' :: (name ++ '}' :: more)) := rfl
  have first := scan_token found rfl before
  have word : ∀ c ∈ '{' :: name ++ ['}'], c ≠ '$' ∧ c ≠ '\\' := by
    intro c member
    simp only [cons_append, mem_cons, mem_append, not_mem_nil, or_false] at member
    rcases member with rfl | member | rfl
    · decide
    · exact plain c member
    · decide
  have copies := scan_plain word (before ++ ['\\', '$']) more
  rw [append_assoc] at copies
  refine ⟨(scan (before ++ ['\\', '$'] ++ ('{' :: name ++ ['}'])) more).map Pass.token, ?_⟩
  rw [cons_append, cons_append, nil_append] at first
  rw [first, map_cons, literalTokens, cons_append]
  exact congrArg _ copies

variable (reference : Bool → Text → Nat → Substitution)

def output (passes : List Pass) : Text :=
  (substitute reference (passes.map Pass.token)).1.flatMap Piece.bytes

def Expansion.written (x : Expansion) : Text :=
  match x.calls.getLast? with
  | some call => call.buffer.data
  | none => x.text

theorem stringVarCheckConst_append (dol : Bool) (before more : Text) :
    stringVarCheckConst dol (before ++ '$' :: '{' :: more) = true := by
  induction before generalizing dol with
  | nil => simp [stringVarCheckConst]
  | cons c before ih =>
    rw [cons_append, stringVarCheckConst]
    split
    · exact ih true
    · split
      · rfl
      · exact ih _

theorem expandWith_written {input : Text} (loops : stringVarCheckConst false input = true) :
    (expandWith reference input).written = output reference (scan [] input) ∧
      (expandWith reference input).crashed =
        (substitute reference ((scan [] input).map Pass.token)).2.2 := by
  rw [expandWith_loops reference loops]
  simp only [Expansion.written, getLast?_append, getLast?_singleton, some_or,
    Expanding.buffer_data]
  exact ⟨rfl, rfl⟩

/-- **An input stays literal**: no reference starts at an escaped `$`, and where an escaped
`${name}` stands outside of every reference, the call writes `${name}` behind what it writes for the
text before, whatever the values of the references are. -/
structure StaysLiteral (input : Text) : Prop where
  free : StartsFree (scan [] input)
  literal : ∀ before name more, input = before ++ '\\' :: '$' :: '{' :: (name ++ '}' :: more) →
    ¬ Escaped before → (∀ c ∈ name, c ≠ '$' ∧ c ≠ '\\') →
    OutsideReferences input.length (scan [] input) before.length →
    ∃ front, front <+: scan [] input ∧ (∀ pass ∈ front, pass.before.length < before.length) ∧
      ∀ reference, (expandWith reference input).crashed = false →
        output reference front ++ ('$' :: '{' :: name ++ ['}']) <+:
          (expandWith reference input).written

theorem output_literal (name : Text) (later : List Token) :
    ('$' :: '{' :: name ++ ['}']) <+:
      (substitute reference (literalTokens name ++ later)).1.flatMap Piece.bytes := by
  have copies : ∀ text : Text, (substitute reference (text.map .copy)).1.flatMap Piece.bytes = text ∧
      (substitute reference (text.map .copy)).2.2 = false := by
    intro text
    induction text with
    | nil => exact ⟨rfl, rfl⟩
    | cons c text ih => exact ⟨congrArg (c :: ·) ih.1, ih.2⟩
  obtain ⟨bytes, survives⟩ := copies ('{' :: name ++ ['}'])
  have word : (substitute reference (literalTokens name)).1.flatMap Piece.bytes =
      '$' :: '{' :: name ++ ['}'] := congrArg ('$' :: ·) bytes
  have lives : (substitute reference (literalTokens name)).2.2 = false := survives
  rw [substitute_append reference lives, flatMap_append, word]
  exact prefix_append _ _

/-- **Escaped references stay literal exactly in the inputs that have none directly behind another
reference.** -/
theorem stays_literal_iff (input : Text) :
    StaysLiteral input ↔ NoEscapeBehind (scan [] input) := by
  have start : ∀ text, InStep [] text := fun text => .of_not_escaped (by decide)
  refine ⟨fun stays => noEscapeBehind_of_startsFree [] input stays.free, fun apart => ?_⟩
  refine ⟨startsFree_of_inStep [] input (start input) apart, ?_⟩
  intro before name more split free plain outside
  obtain ⟨front, passes, earlier⟩ := scan_reaches [] input (start input) apart split free outside
  refine ⟨front, ⟨_, passes.symm⟩, earlier, fun reference lives => ?_⟩
  have loops : stringVarCheckConst false input = true := by
    have := stringVarCheckConst_append false (before ++ ['\\']) (name ++ '}' :: more)
    rwa [append_assoc, singleton_append, ← split] at this
  obtain ⟨written, crashed⟩ := expandWith_written reference loops
  obtain ⟨later, tokens⟩ := scan_escaped plain ([] ++ before) more
  rw [crashed, passes, map_append] at lives
  rw [written, passes]
  unfold output
  rw [map_append, substitute_append reference (substitute_survives reference lives), tokens,
    flatMap_append]
  exact (prefix_append_right_inj _).mpr (output_literal reference name later)

/-- `${a}\${b}`: the second reference is expanded although it is escaped. -/
theorem escaped_behind_reference :
    ¬ StaysLiteral "$\x7ba\x7d\\$\x7bb\x7d" := by
  intro stays
  have free := stays.free
  exact absurd free (by unfold StartsFree; decide +kernel)

end FreeSwitch
