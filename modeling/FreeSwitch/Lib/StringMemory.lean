/-
**Strings in memory.**

A memory has a byte at every index, of which the ones below `len` may be read and written: every
access is checked. `Holds mem p s` says that the string `s` with its NUL is at index `p`.

* `load_eq`, `store_eq`: accesses that are inside;
* `hasFrom_holds`: `strchr` finds what is in the string, and reads no further;
* `Holds.congr`, `Holds.store`: a string stays when other bytes are written;
* `Filled.concat`, `Filled.ended`: a string is written byte by byte and ended by a NUL;
* `Spread`: strings one behind another, apart from each other.
-/

import FreeSwitch.Lib.CString
import FreeSwitch.Lib.Fallible

namespace StringMemory

open CString Fallible Function List

abbrev Memory := Nat → Char

structure Outside where
  index : Nat
deriving DecidableEq

/-- `'\0'`. -/
def nul : Char := '\x00'

/-! ### Accesses -/

section Access

variable (len : Nat)

/-- `*(p)`. -/
def load (mem : Memory) (p : Nat) : Except Outside Char := if p < len then .ok (mem p) else .error ⟨p⟩

/-- `*(p) = c`. -/
def store (mem : Memory) (p : Nat) (c : Char) : Except Outside Memory :=
  if p < len then .ok (update mem p c) else .error ⟨p⟩

/-- `strchr(p, c) != NULL`, for a `c` that is not NUL. -/
def hasFrom (mem : Memory) (c : Char) (p : Nat) : Except Outside Bool :=
  if p < len then
    if mem p = c then .ok true
    else if mem p = nul then .ok false
    else hasFrom mem c (p + 1)
  else .error ⟨p⟩
termination_by len - p

end Access

section Holds

variable {len p q : Nat} {mem mem' : Memory} {s : Text}

/-- The string `s` is at index `p`. -/
def Holds (mem : Memory) (p : Nat) : Text → Prop
  | [] => mem p = nul
  | c :: s => mem p = c ∧ c ≠ nul ∧ Holds mem (p + 1) s

instance Holds.decidable (mem : Memory) : (p : Nat) → (s : Text) → Decidable (Holds mem p s)
  | p, [] => inferInstanceAs (Decidable (mem p = nul))
  | p, c :: s =>
    have := Holds.decidable mem (p + 1) s
    inferInstanceAs (Decidable (mem p = c ∧ c ≠ nul ∧ Holds mem (p + 1) s))

theorem load_eq (inside : p < len) : load len mem p = .ok (mem p) := if_pos inside

theorem store_eq {c : Char} (inside : p < len) :
    store len mem p c = .ok (update mem p c) := if_pos inside

theorem hasFrom_holds {c : Char} (byte : c ≠ nul) (holds : Holds mem p s)
    (inside : p + s.length < len) : hasFrom len mem c p = .ok (decide (c ∈ s)) := by
  induction s generalizing p with
  | nil =>
    have ends : mem p = nul := holds
    have other : ¬ mem p = c := fun same => byte (same.symm.trans ends)
    rw [hasFrom, if_pos (by simpa using inside), if_neg other, if_pos ends]
    rfl
  | cons a s ih =>
    obtain ⟨here, byte', later⟩ := holds
    rw [length_cons] at inside
    rw [hasFrom, if_pos (by omega), here]
    by_cases same : a = c
    · simp [same]
    · rw [if_neg same, if_neg byte', ih later (by omega)]
      simp [Ne.symm same]

theorem Holds.congr (holds : Holds mem p s)
    (same : ∀ i, p ≤ i → i ≤ p + s.length → mem' i = mem i) : Holds mem' p s := by
  induction s generalizing p with
  | nil => exact (same p le_rfl (by simp)).trans holds
  | cons a s ih =>
    obtain ⟨here, byte, later⟩ := holds
    refine ⟨(same p le_rfl (by omega)).trans here, byte, ih later fun i low high => ?_⟩
    exact same i (by omega) (by rw [length_cons]; omega)

theorem Holds.store (holds : Holds mem p s) {i : Nat} (c : Char) (apart : i < p ∨ p + s.length < i) :
    Holds (update mem i c) p s :=
  holds.congr fun j low high => update_of_ne (by omega) _ _

theorem Holds.behind {front back : Text} (holds : Holds mem p (front ++ back)) :
    Holds mem (p + front.length) back := by
  induction front generalizing p with
  | nil => exact holds
  | cons a front ih =>
    have later := ih holds.2.2
    rwa [Nat.add_right_comm, Nat.add_assoc, ← length_cons] at later

theorem Holds.cutAt {front back : Text} (holds : Holds mem p (front ++ back)) :
    Holds (update mem (p + front.length) nul) p front := by
  induction front generalizing p with
  | nil => exact update_self ..
  | cons a front ih =>
    obtain ⟨here, byte, later⟩ := holds
    have rest := ih later
    rw [Nat.add_right_comm, Nat.add_assoc, ← length_cons] at rest
    refine ⟨?_, byte, rest⟩
    rw [update_of_ne (by simp), here]

theorem Holds.head_ne (holds : Holds mem p s) (some : s ≠ []) : mem p ≠ nul := by
  cases s with
  | nil => exact absurd rfl some
  | cons c s => exact holds.1.trans_ne holds.2.1

theorem Holds.exists_cons (holds : Holds mem p s) (byte : mem p ≠ nul) :
    ∃ rest, s = mem p :: rest ∧ Holds mem (p + 1) rest := by
  cases s with
  | nil => exact absurd holds byte
  | cons c s => exact ⟨s, by rw [holds.1], holds.2.2⟩

theorem Holds.nul_not_mem (holds : Holds mem p s) : nul ∉ s := by
  induction s generalizing p with
  | nil => simp
  | cons a s ih =>
    obtain ⟨-, byte, later⟩ := holds
    simp only [mem_cons, not_or]
    exact ⟨Ne.symm byte, ih later⟩

def ofText (s : Text) : Memory := fun i => (s[i]?).getD nul

theorem holds_ofText_drop (clean : nul ∉ s) (n : Nat) :
    Holds (ofText s) n (s.drop n) := by
  induction rest : s.drop n generalizing n with
  | nil =>
    have short : s.length ≤ n := drop_eq_nil_iff.mp rest
    show (s[n]?).getD nul = nul
    rw [getElem?_eq_none short]
    rfl
  | cons c rest' ih =>
    have here : s[n]? = some c := by
      have head := congrArg List.head? rest
      rwa [head?_drop, head?_cons] at head
    have member : c ∈ s := mem_of_mem_drop (rest ▸ mem_cons_self)
    refine ⟨?_, fun isNul => clean (isNul ▸ member), ih (n + 1) ?_⟩
    · show (s[n]?).getD nul = c
      rw [here]
      rfl
    · rw [← drop_drop, rest]
      rfl

theorem holds_ofText (clean : nul ∉ s) : Holds (ofText s) 0 s := by
  simpa using holds_ofText_drop clean 0

end Holds

/-! ### Writing a string -/

/-- The bytes of `s` are at index `p`, with anything behind them. -/
def Filled (mem : Memory) (p : Nat) : Text → Prop
  | [] => True
  | c :: s => mem p = c ∧ c ≠ nul ∧ Filled mem (p + 1) s

section Filled

variable {p : Nat} {mem : Memory} {s : Text}

theorem Filled.concat (filled : Filled mem p s) {c : Char} (byte : c ≠ nul) :
    Filled (update mem (p + s.length) c) p (s ++ [c]) := by
  induction s generalizing p with
  | nil => exact ⟨update_self .., byte, trivial⟩
  | cons a s ih =>
    obtain ⟨here, byte', later⟩ := filled
    have rest := ih later
    rw [Nat.add_right_comm, Nat.add_assoc, ← length_cons] at rest
    refine ⟨?_, byte', rest⟩
    rw [update_of_ne (by simp), here]

theorem Filled.ended (filled : Filled mem p s) {n : Nat} (within : n ≤ s.length) :
    Holds (update mem (p + n) nul) p (s.take n) := by
  induction s generalizing p n with
  | nil =>
    obtain rfl : n = 0 := by simpa using within
    exact update_self ..
  | cons a s ih =>
    cases n with
    | zero => exact update_self ..
    | succ n =>
      obtain ⟨here, byte, later⟩ := filled
      have rest := ih later (Nat.le_of_succ_le_succ within)
      rw [Nat.add_right_comm, Nat.add_assoc] at rest
      refine ⟨?_, byte, rest⟩
      rw [update_of_ne (by omega), here]

end Filled

/-! ### Several strings -/

/-- The strings `texts` are at `ps`, from `low` on, one behind another, and end before `high`. -/
def Spread (mem : Memory) : (low high : Nat) → List Nat → List Text → Prop
  | _, _, [], [] => True
  | low, high, p :: ps, s :: texts =>
    low ≤ p ∧ p + s.length < high ∧ Holds mem p s ∧ Spread mem (p + s.length + 1) high ps texts
  | _, _, _, _ => False

section Spread

variable {mem mem' : Memory} {low high : Nat} {ps : List Nat} {texts : List Text}

theorem Spread.congr (spread : Spread mem low high ps texts)
    (same : ∀ i, low ≤ i → i < high → mem' i = mem i) : Spread mem' low high ps texts := by
  fun_induction Spread mem low high ps texts with
  | case1 => trivial
  | case2 low high p ps s texts ih =>
    obtain ⟨after, before, here, later⟩ := spread
    refine ⟨after, before, here.congr fun i first last => same i (by omega) (by omega), ?_⟩
    exact ih later fun i first last => same i (by omega) last
  | case3 => exact spread.elim

theorem Spread.mono {lower higher : Nat} (spread : Spread mem low high ps texts)
    (less : lower ≤ low) (more : high ≤ higher) : Spread mem lower higher ps texts := by
  fun_induction Spread mem low high ps texts generalizing lower with
  | case1 => trivial
  | case2 low high p ps s texts ih =>
    obtain ⟨after, before, here, later⟩ := spread
    exact ⟨less.trans after, before.trans_le more, here, ih later le_rfl more⟩
  | case3 => exact spread.elim

theorem Spread.concat {last p : Nat} {s : Text} (spread : Spread mem low last ps texts)
    (after : last ≤ p) (above : low ≤ p) (before : p + s.length < high) (holds : Holds mem p s) :
    Spread mem low high (ps ++ [p]) (texts ++ [s]) := by
  fun_induction Spread mem low last ps texts with
  | case1 => exact ⟨above, before, holds, trivial⟩
  | case2 low last q ps s' texts ih =>
    obtain ⟨first, short, here, later⟩ := spread
    exact ⟨first, by omega, here, ih later after (by omega)⟩
  | case3 => exact spread.elim

theorem Spread.length_eq (spread : Spread mem low high ps texts) : ps.length = texts.length := by
  fun_induction Spread mem low high ps texts with
  | case1 => rfl
  | case2 low high p ps s texts ih => exact congrArg Nat.succ (ih spread.2.2.2)
  | case3 => exact spread.elim

theorem Spread.below (spread : Spread mem low high ps texts) : ∀ p ∈ ps, p < high := by
  fun_induction Spread mem low high ps texts with
  | case1 => simp
  | case2 low high p ps s texts ih =>
    obtain ⟨-, before, -, later⟩ := spread
    exact forall_mem_cons.mpr ⟨by omega, ih later⟩
  | case3 => exact spread.elim

theorem Spread.nul_not_mem (spread : Spread mem low high ps texts) : ∀ s ∈ texts, nul ∉ s := by
  fun_induction Spread mem low high ps texts with
  | case1 => simp
  | case2 low high p ps s texts ih =>
    exact forall_mem_cons.mpr ⟨spread.2.2.1.nul_not_mem, ih spread.2.2.2⟩
  | case3 => exact spread.elim

end Spread

end StringMemory
