/-
**Base64, from `switch_utils.c`.**

Both functions move bits through an accumulator, of which they take six or eight at a time. The
encoder looks at the end of its buffer only behind a character that is written, so that a buffer must
have two bytes.

* **`base64_iff`**: the round trip, and when the encoder stays within its buffer.
-/

import FreeSwitch.Lib.CString

namespace FreeSwitch

open CString List

def b64Table : Text := "ABCDEFGHIJKLMNOPQRSTUVWXYZabcdefghijklmnopqrstuvwxyz0123456789+/"

def b64Char (n : Nat) : Char := b64Table.getD (n % 64) 'A'

/-! ### The encoder -/

/-- The `while` loop of `switch_b64_encode`: what is written, the bits left, and whether the buffer is
full. -/
def b64Emit (limit : Int) (b : Nat) : Nat → Text → Text × Nat × Bool
  | l + 6, out =>
    let out := out ++ [b64Char (b >>> l)]
    if limit ≤ out.length then (out, l, true) else b64Emit limit b l out
  | l, out => (out, l, false)

def b64Pad (limit : Int) : Nat → Text → Text
  | 0, out => out
  | n + 1, out => if (out.length : Int) < limit then b64Pad limit n (out ++ ['=']) else out

/-- The loop of `switch_b64_encode` and its end, with the accumulator and its bits. -/
def b64Loop (limit : Int) : List UInt8 → Nat → Nat → Text → Text
  | [], b, l, out =>
    if l = 0 then out
    else b64Pad limit ((7 - l) / 2) (out ++ [b64Char ((b % 16) <<< (6 - l))])
  | x :: xs, b, l, out =>
    let b := (b * 256 + x.toNat) % 2 ^ 32
    match b64Emit limit b (l + 8) out with
    | (out, _, true) => out
    | (out, l, false) => b64Loop limit xs b l out

/-- `switch_b64_encode` into `olen` bytes, compared as an `int`, without the terminator. -/
def b64Encode (input : List UInt8) (olen : Nat) : Text :=
  b64Loop (Int.bmod olen (2 ^ 32) - 1) input 0 0 []

/-! ### The decoder -/

/-- `l64`, without the characters that are skipped. -/
def b64Value (c : Char) : Option Nat := b64Table.findIdx? (· = c)

def b64Drain (limit : Nat) (b : Nat) : Nat → List UInt8 → List UInt8 × Nat × Bool
  | l + 8, out =>
    let out := out ++ [UInt8.ofNat (b >>> l)]
    if limit ≤ out.length then (out, l, true) else b64Drain limit b l out
  | l, out => (out, l, false)

/-- The loop of `switch_b64_decode`; of the `int` its 32 bits are kept. -/
def b64Gather (limit : Nat) : Text → Nat → Nat → List UInt8 → List UInt8
  | [], _, _, out => out
  | c :: s, b, l, out =>
    match b64Value c with
    | none => b64Gather limit s b l out
    | some v =>
      let b := (b * 64 + v) % 2 ^ 32
      match b64Drain limit b (l + 6) out with
      | (out, _, true) => out
      | (out, l, false) => b64Gather limit s b l out

/-- `switch_b64_decode`: the bytes before the terminator, and the number returned, which counts it. -/
def b64Decode (s : Text) (olen : Nat) : List UInt8 × Nat :=
  let out := b64Gather ((olen + 2 ^ 64 - 2) % 2 ^ 64) s 0 0 []
  (out, out.length + 1)

/-! ### Groups of three bytes -/

/-- The encoding of a text. -/
def b64Text : List UInt8 → Text
  | [] => []
  | [x] => [b64Char (x.toNat / 4), b64Char (x.toNat % 4 * 16), '=', '=']
  | [x, y] => [b64Char (x.toNat / 4), b64Char (x.toNat % 4 * 16 + y.toNat / 16),
      b64Char (y.toNat % 16 * 4), '=']
  | x :: y :: z :: s =>
    [b64Char (x.toNat / 4), b64Char (x.toNat % 4 * 16 + y.toNat / 16),
      b64Char (y.toNat % 16 * 4 + z.toNat / 64), b64Char (z.toNat % 64)] ++ b64Text s

section Encoder

variable {limit : Int} {x : UInt8} {s : List UInt8} {b l : Nat} {out : Text}

theorem b64Char_congr {m n : Nat} (same : m % 64 = n % 64) : b64Char m = b64Char n := by
  rw [b64Char, b64Char, same]

theorem b64Emit_room (room : (out.length : Int) + 1 < limit) :
    b64Emit limit b (l + 6) out = b64Emit limit b l (out ++ [b64Char (b >>> l)]) := by
  rw [b64Emit]
  exact if_neg (by rw [length_append, length_singleton]; omega)

theorem b64Emit_done (few : l < 6) :
    b64Emit limit b l out = (out, l, false) := by
  match l, few with
  | 0, _ | 1, _ | 2, _ | 3, _ | 4, _ | 5, _ => rfl

theorem b64Loop_one (few : l < 4) (room : (out.length : Int) + 1 < limit) :
    b64Loop limit (x :: s) b l out = b64Loop limit s ((b * 256 + x.toNat) % 2 ^ 32) (l + 2)
      (out ++ [b64Char ((b * 256 + x.toNat) % 2 ^ 32 / 2 ^ (l + 2))]) := by
  rw [b64Loop, b64Emit_room room, b64Emit_done (by omega), Nat.shiftRight_eq_div_pow]

theorem b64Loop_two (room : (out.length : Int) + 2 < limit) :
    b64Loop limit (x :: s) b 4 out = b64Loop limit s ((b * 256 + x.toNat) % 2 ^ 32) 0
      (out ++ [b64Char ((b * 256 + x.toNat) % 2 ^ 32 / 2 ^ 6),
        b64Char ((b * 256 + x.toNat) % 2 ^ 32)]) := by
  rw [b64Loop, b64Emit_room (l := 6) (by omega), Nat.shiftRight_eq_div_pow,
    b64Emit_room (l := 0) (by rw [length_append, length_singleton]; omega), b64Emit_done (by omega),
    append_assoc]
  rfl

theorem b64Pad_room {n : Nat} (room : (out.length : Int) + n ≤ limit) :
    b64Pad limit n out = out ++ replicate n '=' := by
  induction n generalizing out with
  | zero => exact (append_nil out).symm
  | succ n ih =>
    rw [b64Pad, if_pos (by omega), ih (by rw [length_append, length_singleton]; omega), append_assoc]
    rfl

theorem b64Loop_eq (limit : Int) : ∀ (s : List UInt8) (b : Nat) (out : Text),
    (out.length : Int) + (b64Text s).length < limit → b64Loop limit s b 0 out = out ++ b64Text s
  | [], b, out, _ => (append_nil out).symm
  | [x], b, out, room => by
    have byte := x.toNat_lt
    simp only [b64Text, length_cons, length_nil] at room
    rw [b64Loop_one (by omega) (by omega), b64Loop, if_neg (by omega), b64Pad_room (by simp; omega),
      append_assoc, append_assoc, Nat.shiftLeft_eq]
    refine congrArg (out ++ ·) (congrArg₂ cons (b64Char_congr ?_) (congrArg₂ cons
      (b64Char_congr ?_) rfl)) <;> omega
  | [x, y], b, out, room => by
    have byteX := x.toNat_lt
    have byteY := y.toNat_lt
    simp only [b64Text, length_cons, length_nil] at room
    rw [b64Loop_one (by omega) (by omega), b64Loop_one (by omega) (by simp; omega), b64Loop,
      if_neg (by omega), b64Pad_room (by simp; omega), append_assoc, append_assoc, append_assoc,
      Nat.shiftLeft_eq]
    refine congrArg (out ++ ·) (congrArg₂ cons (b64Char_congr ?_) (congrArg₂ cons
      (b64Char_congr ?_) (congrArg₂ cons (b64Char_congr ?_) rfl))) <;> omega
  | x :: y :: z :: s, b, out, room => by
    have byteX := x.toNat_lt
    have byteY := y.toNat_lt
    have byteZ := z.toNat_lt
    simp only [b64Text, length_append, length_cons, length_nil] at room
    rw [b64Loop_one (by omega) (by omega), b64Loop_one (by omega) (by simp; omega),
      b64Loop_two (by simp; omega), b64Loop_eq limit s _ _ (by simp; omega), append_assoc,
      append_assoc, append_assoc]
    refine congrArg (out ++ ·) (congrArg₂ cons (b64Char_congr ?_) (congrArg₂ cons
      (b64Char_congr ?_) (congrArg₂ cons (b64Char_congr ?_) (congrArg₂ cons
      (b64Char_congr ?_) rfl)))) <;> omega

/-! ### The end of the buffer -/

theorem b64Emit_inside (inside : (out.length : Int) < limit) :
    out.length ≤ (b64Emit limit b l out).1.length ∧
      ((b64Emit limit b l out).1.length : Int) ≤ limit ∧ ((b64Emit limit b l out).2.2 = false →
        ((b64Emit limit b l out).1.length : Int) < limit) := by
  induction l using Nat.strong_induction_on generalizing out with
  | _ l ih =>
    by_cases more : 6 ≤ l
    · obtain ⟨l, rfl⟩ := Nat.exists_eq_add_of_le' more
      rw [b64Emit]
      split_ifs with full
      · rw [length_append, length_singleton]
        exact ⟨by omega, by omega, nofun⟩
      · rw [length_append, length_singleton] at full
        have rest := @ih l (by omega) (out ++ [b64Char (b >>> l)])
          (by rw [length_append, length_singleton]; omega)
        rw [length_append, length_singleton] at rest
        exact ⟨by omega, rest.2⟩
    · rw [b64Emit_done (by omega)]
      exact ⟨le_rfl, inside.le, fun _ => inside⟩

theorem b64Pad_inside {n : Nat} (inside : (out.length : Int) ≤ limit) :
    out.length ≤ (b64Pad limit n out).length ∧ ((b64Pad limit n out).length : Int) ≤ limit := by
  induction n generalizing out with
  | zero => exact ⟨le_rfl, inside⟩
  | succ n ih =>
    rw [b64Pad]
    split_ifs with more
    · have rest := @ih (out ++ ['=']) (by rw [length_append, length_singleton]; omega)
      rw [length_append, length_singleton] at rest
      exact ⟨by omega, rest.2⟩
    · exact ⟨le_rfl, inside⟩

theorem b64Loop_inside (inside : (out.length : Int) < limit) :
    out.length ≤ (b64Loop limit s b l out).length ∧
      ((b64Loop limit s b l out).length : Int) ≤ limit := by
  induction s generalizing b l out with
  | nil =>
    rw [b64Loop]
    split_ifs
    · exact ⟨le_rfl, by omega⟩
    · have pads := @b64Pad_inside limit (out ++ [b64Char ((b % 16) <<< (6 - l))]) ((7 - l) / 2)
        (by rw [length_append, length_singleton]; omega)
      rw [length_append, length_singleton] at pads
      exact ⟨by omega, pads.2⟩
  | cons x s ih =>
    obtain ⟨longer, within, short⟩ :=
      b64Emit_inside (b := (b * 256 + x.toNat) % 2 ^ 32) (l := l + 8) inside
    rw [b64Loop]
    split
    next full => rw [full] at longer within; exact ⟨longer, within⟩
    next written left goes =>
      rw [goes] at longer short
      have rest := ih (b := (b * 256 + x.toNat) % 2 ^ 32) (l := left) (short rfl)
      exact ⟨longer.trans rest.1, rest.2⟩

theorem b64Loop_length (limit : Int) (x : UInt8) (s : List UInt8) :
    1 ≤ (b64Loop limit (x :: s) 0 0 []).length ∧
      ((b64Loop limit (x :: s) 0 0 []).length : Int) ≤ max limit 1 := by
  by_cases room : 1 < limit
  · rw [b64Loop_one (by omega) (by simpa using room)]
    generalize (0 * 256 + x.toNat) % 2 ^ 32 = b
    have rest := @b64Loop_inside limit s b (0 + 2) ([] ++ [b64Char (b / 2 ^ (0 + 2))])
      (by simpa using room)
    exact ⟨rest.1, le_max_of_le_left rest.2⟩
  · have full : ∀ b, b64Emit limit b (2 + 6) [] = ([b64Char (b >>> 2)], 2, true) := fun b => by
      rw [b64Emit]
      exact if_pos (not_lt.mp room)
    rw [b64Loop]
    generalize (0 * 256 + x.toNat) % 2 ^ 32 = b
    rw [show 0 + 8 = 2 + 6 from rfl, full b]
    exact ⟨le_rfl, le_max_right _ _⟩

end Encoder

/-! ### The round trip -/

section Decoder

variable {limit v b l : Nat} {s : Text} {out : List UInt8}

theorem b64Value_b64Char : ∀ n < 64, b64Value (b64Char n) = some n := by decide

theorem b64Gather_less (value : v < 64) (few : l < 2) :
    b64Gather limit (b64Char v :: s) b l out =
      b64Gather limit s ((b * 64 + v) % 2 ^ 32) (l + 6) out := by
  rw [b64Gather, b64Value_b64Char v value]
  match l, few with
  | 0, _ | 1, _ => rfl

theorem b64Gather_byte (value : v < 64) (few : l < 6) (room : out.length + 1 < limit) :
    b64Gather limit (b64Char v :: s) b (l + 2) out =
      b64Gather limit s ((b * 64 + v) % 2 ^ 32) l
        (out ++ [UInt8.ofNat ((b * 64 + v) % 2 ^ 32 / 2 ^ l)]) := by
  rw [b64Gather, b64Value_b64Char v value]
  dsimp only
  rw [b64Drain, if_neg (by rw [length_append, length_singleton]; omega), Nat.shiftRight_eq_div_pow]
  match l, few with
  | 0, _ | 1, _ | 2, _ | 3, _ | 4, _ | 5, _ => rfl

theorem b64Gather_pad : b64Gather limit ('=' :: s) b l out = b64Gather limit s b l out := rfl

theorem ofNat_eq {x : UInt8} {n : Nat} (same : n % 256 = x.toNat) : UInt8.ofNat n = x := by
  rw [← UInt8.toNat_inj, UInt8.toNat_ofNat', same]

theorem b64Gather_b64Text (limit : Nat) : ∀ (s : List UInt8) (b : Nat) (out : List UInt8),
    out.length + s.length < limit → b64Gather limit (b64Text s) b 0 out = out ++ s
  | [], b, out, _ => (append_nil out).symm
  | [x], b, out, room => by
    have byte := x.toNat_lt
    simp only [length_cons, length_nil] at room
    rw [b64Text, b64Gather_less (by omega) (by omega),
      b64Gather_byte (l := 4) (by omega) (by omega) (by omega), b64Gather_pad, b64Gather_pad,
      ofNat_eq (x := x) (by omega)]
    rfl
  | [x, y], b, out, room => by
    have byteX := x.toNat_lt
    have byteY := y.toNat_lt
    simp only [length_cons, length_nil] at room
    rw [b64Text, b64Gather_less (by omega) (by omega),
      b64Gather_byte (l := 4) (by omega) (by omega) (by omega),
      b64Gather_byte (l := 2) (by omega) (by omega) (by simp; omega), b64Gather_pad,
      ofNat_eq (x := x) (by omega), ofNat_eq (x := y) (by omega), append_assoc]
    rfl
  | x :: y :: z :: s, b, out, room => by
    have byteX := x.toNat_lt
    have byteY := y.toNat_lt
    have byteZ := z.toNat_lt
    simp only [length_cons] at room
    rw [b64Text, cons_append, cons_append, cons_append, cons_append, nil_append,
      b64Gather_less (by omega) (by omega), b64Gather_byte (l := 4) (by omega) (by omega) (by omega),
      b64Gather_byte (l := 2) (by omega) (by omega) (by simp; omega),
      b64Gather_byte (l := 0) (by omega) (by omega) (by simp; omega),
      b64Gather_b64Text limit s _ _ (by simp; omega), ofNat_eq (x := x) (by omega),
      ofNat_eq (x := y) (by omega), ofNat_eq (x := z) (by omega)]
    simp

end Decoder

/-- **The round trip holds in all large buffers, and the encoder stays within its buffer**, exactly when
that has two bytes, or one for no bytes at all. -/
theorem base64_iff (s : List UInt8) (olen : Nat) :
    ((∀ n m, (b64Text s).length + 1 < n → n < 2 ^ 31 → s.length + 2 < m → m < 2 ^ 64 →
        b64Decode (b64Encode s n) m = (s, s.length + 1)) ∧
      (b64Encode s olen).length + 1 ≤ olen) ↔ 2 ≤ olen ∨ olen = 1 ∧ s = [] := by
  have returns : ∀ n m, (b64Text s).length + 1 < n → n < 2 ^ 31 → s.length + 2 < m → m < 2 ^ 64 →
      b64Decode (b64Encode s n) m = (s, s.length + 1) := by
    intro n m large int room size
    have positive : Int.bmod n (2 ^ 32) = n := by
      rw [Int.bmod_eq_of_le] <;> omega
    rw [b64Encode, positive, b64Loop_eq _ s 0 [] (by simp; omega), nil_append, b64Decode,
      b64Gather_b64Text _ s 0 [] (by simp; omega)]
    rfl
  rw [and_iff_right returns]
  cases s with
  | nil =>
    have none_ : b64Encode [] olen = [] := rfl
    rw [none_, length_nil]
    simp
    omega
  | cons x s =>
    obtain ⟨some_, within⟩ := b64Loop_length (Int.bmod olen (2 ^ 32) - 1) x s
    rw [b64Encode]
    have below : Int.bmod olen (2 ^ 32) ≤ olen := by
      rw [Int.bmod_def]
      split <;> omega
    simp only [reduceCtorEq, and_false, or_false]
    omega

/-- In a buffer of one byte the terminator of a text is the second byte. -/
theorem terminator_outside : (b64Encode [0] 1).length + 1 = 2 := by decide

end FreeSwitch
