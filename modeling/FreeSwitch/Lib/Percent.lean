/-
**Percent encoding of byte texts.**

A reserved byte is written as `%` and two hexadecimal digits, every other byte as it is.

* `encode`: the whole encoding; `encodeInto` — what fits into a buffer;
* `decode`: every `%` that two digits follow, as `sscanf` reads them, is one byte;
* **`decode_encode`**: decoding inverts encoding where `%` is reserved.
-/

import FreeSwitch.Lib.CString

namespace Percent

open CString List

/-! ### Digits -/

def hexDigit (n : Nat) : Char := "0123456789ABCDEF".toList.getD n '0'

def hexValue (c : Char) : Option Nat :=
  if '0' ≤ c ∧ c ≤ '9' then some (c.toNat - '0'.toNat)
  else if 'A' ≤ c ∧ c ≤ 'F' then some (c.toNat - 'A'.toNat + 10)
  else if 'a' ≤ c ∧ c ≤ 'f' then some (c.toNat - 'a'.toNat + 10)
  else none

theorem hexValue_hexDigit : ∀ n < 16, hexValue (hexDigit n) = some n := by decide

/-- The digits that a text starts with, at most `width`. -/
def scanDigits : Nat → Text → List Nat
  | width + 1, c :: s => (hexValue c).elim [] fun n => n :: scanDigits width s
  | _, _ => []

def scanSigned : Text → Bool × List Nat
  | '-' :: s => (true, scanDigits 1 s)
  | '+' :: s => (false, scanDigits 1 s)
  | s => (false, scanDigits 2 s)

/-- `sscanf(s, "%2x", &byte)`, where the result is stored in a byte; blanks are skipped. -/
def scanHex (s : Text) : Option Nat :=
  let scanned := scanSigned (s.dropWhile isSpace)
  if scanned.2 = [] then none
  else
    let n := scanned.2.foldl (fun n d => 16 * n + d) 0
    some (if scanned.1 then 256 - n else n)

theorem hexDigit_ordinary :
    ∀ n < 16, isSpace (hexDigit n) = false ∧ hexDigit n ≠ '-' ∧ hexDigit n ≠ '+' := by decide

theorem scanDigits_hexDigits {a b : Nat} (high : a < 16) (low : b < 16) (rest : Text) :
    scanDigits 2 (hexDigit a :: hexDigit b :: rest) = [a, b] := by
  simp only [scanDigits, hexValue_hexDigit a high, hexValue_hexDigit b low, Option.elim_some]

theorem scanHex_hexDigits {n : Nat} (byte : n < 256) (rest : Text) :
    scanHex (hexDigit (n / 16) :: hexDigit (n % 16) :: rest) = some n := by
  have high : n / 16 < 16 := by omega
  have low : n % 16 < 16 := by omega
  obtain ⟨notSpace, notMinus, notPlus⟩ := hexDigit_ordinary (n / 16) high
  have scanned : scanSigned (hexDigit (n / 16) :: hexDigit (n % 16) :: rest) =
      (false, [n / 16, n % 16]) := by
    unfold scanSigned
    split
    next minus => exact absurd (List.cons.inj minus).1 notMinus
    next plus => exact absurd (List.cons.inj plus).1 notPlus
    next => rw [scanDigits_hexDigits high low rest]
  unfold scanHex
  rw [dropWhile_cons_of_neg (by simp [notSpace]), scanned]
  simp only [reduceCtorEq, if_false, foldl_cons, foldl_nil, Bool.false_eq_true]
  congr 1
  omega

/-! ### Encoding -/

section Encode

variable (reserved : Char → Bool)

def encodeChar (c : Char) : Text :=
  if reserved c then ['%', hexDigit (c.toNat / 16 % 16), hexDigit (c.toNat % 16)] else [c]

def encode (s : Text) : Text := s.flatMap (encodeChar reserved)

/-- The encoding as far as `room` goes; a byte is written in full or not at all. -/
def encodeInto : Nat → Text → Text
  | _, [] => []
  | room, c :: s =>
    if room = 0 then []
    else if reserved c then
      if room < 3 then [] else encodeChar reserved c ++ encodeInto (room - 3) s
    else encodeChar reserved c ++ encodeInto (room - 1) s

theorem encode_cons (c : Char) (s : Text) :
    encode reserved (c :: s) = encodeChar reserved c ++ encode reserved s := rfl

theorem encodeChar_length (c : Char) :
    (encodeChar reserved c).length = if reserved c then 3 else 1 := by
  unfold encodeChar
  split <;> rfl

theorem encode_plain {s : Text} (plain : ∀ c ∈ s, reserved c = false) : encode reserved s = s := by
  induction s with
  | nil => rfl
  | cons c s ih =>
    rw [encode_cons, encodeChar, if_neg (by simp [plain c mem_cons_self]),
      ih fun d member => plain d (mem_cons_of_mem _ member)]
    rfl

theorem encodeInto_eq (s : Text) : ∀ {room : Nat}, (encode reserved s).length ≤ room →
    encodeInto reserved room s = encode reserved s := by
  induction s with
  | nil => exact fun _ => rfl
  | cons c s ih =>
    intro room fits
    have size := encodeChar_length reserved c
    rw [encode_cons, length_append] at fits
    by_cases special : reserved c = true
    · rw [if_pos special] at size
      rw [encodeInto, if_neg (by omega), if_pos special, if_neg (by omega), ih (by omega),
        encode_cons]
    · rw [if_neg special] at size
      rw [encodeInto, if_neg (by omega), if_neg special, ih (by omega), encode_cons]

end Encode

/-! ### Decoding -/

/-- A `%` with two bytes behind that start with a number is one byte, any other is itself. -/
def decode : Text → Text
  | [] => []
  | c :: s =>
    match if c = '%' ∧ 2 ≤ s.length then scanHex s else none with
    | some byte => Char.ofNat byte :: decode (s.drop 2)
    | none => c :: decode s
termination_by s => s.length
decreasing_by
  · simp only [length_drop, length_cons]
    omega
  · simp

theorem decode_ordinary {c : Char} (ordinary : c ≠ '%') (s : Text) :
    decode (c :: s) = c :: decode s := by
  rw [decode, if_neg fun both => ordinary both.1]

theorem decode_escape {n : Nat} (byte : n < 256) (s : Text) :
    decode ('%' :: hexDigit (n / 16) :: hexDigit (n % 16) :: s) = Char.ofNat n :: decode s := by
  rw [decode, if_pos ⟨rfl, by simp⟩, scanHex_hexDigits byte]
  rfl

variable {reserved : Char → Bool} {s : Text}

/-- **Decoding inverts encoding**, on bytes, where `%` is reserved. -/
theorem decode_encode (percent : reserved '%' = true) (bytes : ∀ c ∈ s, c.toNat < 256) :
    decode (encode reserved s) = s := by
  induction s with
  | nil => rw [encode, flatMap_nil, decode]
  | cons c s ih =>
    have byte := bytes c mem_cons_self
    have rest := ih fun d member => bytes d (mem_cons_of_mem _ member)
    rw [encode_cons, encodeChar]
    split
    · have digit : c.toNat / 16 % 16 = c.toNat / 16 := Nat.mod_eq_of_lt (by omega)
      rw [digit]
      show decode ('%' :: hexDigit (c.toNat / 16) :: hexDigit (c.toNat % 16) ::
        encode reserved s) = _
      rw [decode_escape byte, rest, Char.ofNat_toNat]
    next plain =>
      have ordinary : c ≠ '%' := fun same => plain (same ▸ percent)
      show decode (c :: encode reserved s) = _
      rw [decode_ordinary ordinary, rest]

theorem mem_encode {c : Char} (member : c ∈ encode reserved s) :
    c = '%' ∨ (hexValue c).isSome = true ∨ reserved c = false := by
  obtain ⟨d, -, inside⟩ := mem_flatMap.mp member
  have digit : ∀ n < 16, (hexValue (hexDigit n)).isSome = true := fun n small => by
    rw [hexValue_hexDigit n small]
    rfl
  unfold encodeChar at inside
  split at inside
  · simp only [mem_cons, not_mem_nil, or_false] at inside
    rcases inside with rfl | rfl | rfl
    · exact Or.inl rfl
    · exact Or.inr (Or.inl (digit _ (Nat.mod_lt _ (by decide))))
    · exact Or.inr (Or.inl (digit _ (Nat.mod_lt _ (by decide))))
  next plain =>
    rw [mem_singleton.mp inside]
    exact Or.inr (Or.inr (Bool.eq_false_iff.mpr plain))

theorem encode_ne_nil (filled : s ≠ []) :
    encode reserved s ≠ [] := by
  obtain ⟨c, s, rfl⟩ := exists_cons_of_ne_nil filled
  rw [encode_cons, encodeChar]
  split <;> simp

end Percent
