/-
**Numbers in memory and byte orders.**

A machine writes a number with its high byte first or with its low byte first. `network16` and
`network32` are `htons` and `htonl` (and back): they change the number so that the bytes which the
machine writes for it are in network order.

* `write`, `read`: bytes put into a memory and taken from it;
* `bytes16_network`, `network16_value16`: a converted number is written high byte first;
* `machine32_network`, `network32_value32`: the same for numbers of four bytes.
-/

import FreeSwitch.Lib.Bytes

namespace Bytes

open List

/-- The memory with `bytes` at `o`. -/
def write (mem : Memory) (o : Nat) (bytes : List (BitVec 8)) : Memory := fun i =>
  if o ≤ i then bytes[i - o]?.getD (mem i) else mem i

/-- The `n` bytes at `o`. -/
def read (mem : Memory) (o n : Nat) : List (BitVec 8) := (List.range n).map fun i => mem (o + i)

variable (big : Bool)

def bytes16 (v : Nat) : List (BitVec 8) :=
  if big then [BitVec.ofNat 8 (v / 256), BitVec.ofNat 8 v]
  else [BitVec.ofNat 8 v, BitVec.ofNat 8 (v / 256)]

/-- `htons` and `ntohs`. -/
def network16 (v : Nat) : Nat := if big then v else v % 256 * 256 + v / 256 % 256

def join (a b c d : BitVec 8) : BitVec 32 := a ++ b ++ c ++ d

def bytes32 (v : BitVec 32) : List (BitVec 8) :=
  [v.extractLsb' 24 8, v.extractLsb' 16 8, v.extractLsb' 8 8, v.extractLsb' 0 8]

def value32 (mem : Memory) (o : Nat) : BitVec 32 :=
  if big then join (mem o) (mem (o + 1)) (mem (o + 2)) (mem (o + 3))
  else join (mem (o + 3)) (mem (o + 2)) (mem (o + 1)) (mem o)

def machine32 (v : BitVec 32) : List (BitVec 8) :=
  if big then bytes32 v else (bytes32 v).reverse

/-- `htonl` and `ntohl`. -/
def network32 (v : BitVec 32) : BitVec 32 :=
  if big then v
  else join (v.extractLsb' 0 8) (v.extractLsb' 8 8) (v.extractLsb' 16 8) (v.extractLsb' 24 8)

/-! ### Writing and reading -/

section Write

variable {mem : Memory} {o i n : Nat} {bytes : List (BitVec 8)}

theorem write_outside (other : i < o ∨ o + bytes.length ≤ i) : write mem o bytes i = mem i := by
  unfold write
  split
  · rw [getElem?_eq_none (by omega), Option.getD_none]
  · rfl

theorem write_inside (i : Nat) : write mem o bytes (o + i) = bytes[i]?.getD (mem (o + i)) := by
  rw [write, if_pos (Nat.le_add_right o i), Nat.add_sub_cancel_left]

theorem read_length : (read mem o n).length = n := by simp [read]

theorem getElem_read (inside : i < (read mem o n).length) : (read mem o n)[i] = mem (o + i) := by
  simp [read]

theorem read_write (sized : bytes.length = n) : read (write mem o bytes) o n = bytes := by
  subst sized
  refine ext_getElem (by rw [read_length]) fun i _ bound => ?_
  rw [getElem_read, write_inside, getElem?_eq_getElem bound, Option.getD_some]

theorem read_congr {other : Memory} (same : ∀ i < n, mem (o + i) = other (o + i)) :
    read mem o n = read other o n :=
  map_congr_left fun i member => same i (mem_range.mp member)

theorem read_add (m n : Nat) : read mem o (m + n) = read mem o m ++ read mem (o + m) n := by
  unfold read
  rw [range_add, map_append, map_map]
  refine congrArg (_ ++ ·) (map_congr_left fun i _ => ?_)
  rw [Function.comp_apply, Nat.add_assoc]

theorem read_write_outside (apart : o + n ≤ i ∨ i + bytes.length ≤ o) :
    read (write mem i bytes) o n = read mem o n :=
  read_congr fun j inside => write_outside (by omega)

end Write

/-! ### Two bytes -/

section Two

variable {big : Bool} {mem : Memory} {o v : Nat}

@[simp] theorem bytes16_length : (bytes16 big v).length = 2 := by
  cases big <;> rfl

theorem value16_write : value16 big (write mem o (bytes16 big v)) o = v % 2 ^ 16 := by
  have first := @write_inside mem o (bytes16 big v) 0
  have second := @write_inside mem o (bytes16 big v) 1
  rw [Nat.add_zero] at first
  rw [value16, first, second]
  cases big <;> simp [bytes16] <;> omega

theorem value16_lt : value16 big mem o < 2 ^ 16 := by
  unfold value16
  split <;> omega

theorem halves {high low : Nat} (highSmall : high < 256) :
    (low * 256 + high) / 256 = low ∧ (low * 256 + high) % 256 = high := by
  omega

theorem network16_swap {high low : Nat} (highSmall : high < 256) (lowSmall : low < 256) :
    network16 false (high * 256 + low) = low * 256 + high := by
  obtain ⟨quotient, rest⟩ := @halves low high lowSmall
  rw [network16, if_neg nofun, quotient, rest, Nat.mod_eq_of_lt highSmall]

theorem network16_network16 (small : v < 2 ^ 16) : network16 big (network16 big v) = v := by
  cases big
  · obtain ⟨quotient, rest⟩ := @halves (v / 256 % 256) (v % 256) (Nat.mod_lt _ (by decide))
    simp only [network16, Bool.false_eq_true, if_false, quotient, rest]
    omega
  · rfl

theorem bytes16_network :
    bytes16 big (network16 big v) = [BitVec.ofNat 8 (v / 256), BitVec.ofNat 8 v] := by
  cases big
  · obtain ⟨quotient, -⟩ := @halves (v / 256 % 256) (v % 256) (Nat.mod_lt _ (by decide))
    have high : BitVec.ofNat 8 (v % 256 * 256 + v / 256 % 256) = BitVec.ofNat 8 (v / 256) :=
      BitVec.eq_of_toNat_eq (by simp)
    have low : BitVec.ofNat 8 (v % 256) = BitVec.ofNat 8 v := BitVec.eq_of_toNat_eq (by simp)
    simp only [bytes16, network16, Bool.false_eq_true, if_false, quotient, high, low]
  · rfl

theorem network16_value16 : network16 big (value16 big mem o) = word mem o := by
  cases big
  · simp only [network16, value16, word, Bool.false_eq_true, if_false]
    omega
  · rfl

end Two

/-! ### Four bytes -/

section Four

variable {big : Bool} {mem : Memory} {o : Nat}

@[simp] theorem bytes32_length (v : BitVec 32) : (bytes32 v).length = 4 := rfl

theorem bytes32_join (a b c d : BitVec 8) : bytes32 (join a b c d) = [a, b, c, d] := by
  have first : (join a b c d).extractLsb' 24 8 = a :=
    (BitVec.extractLsb'_append_eq_of_le (by decide)).trans
      ((BitVec.extractLsb'_append_eq_of_le (by decide)).trans
        ((BitVec.extractLsb'_append_eq_of_le (by decide)).trans BitVec.extractLsb'_eq_self))
  have second : (join a b c d).extractLsb' 16 8 = b :=
    (BitVec.extractLsb'_append_eq_of_le (by decide)).trans
      ((BitVec.extractLsb'_append_eq_of_le (by decide)).trans BitVec.extractLsb'_append_eq_right)
  have third : (join a b c d).extractLsb' 8 8 = c :=
    (BitVec.extractLsb'_append_eq_of_le (by decide)).trans BitVec.extractLsb'_append_eq_right
  have fourth : (join a b c d).extractLsb' 0 8 = d := BitVec.extractLsb'_append_eq_right
  rw [bytes32, first, second, third, fourth]

theorem bytes32_xor (v w : BitVec 32) :
    bytes32 (v ^^^ w) = List.zipWith (· ^^^ ·) (bytes32 v) (bytes32 w) := by
  simp only [bytes32, BitVec.extractLsb'_xor, zipWith_cons_cons, zipWith_nil_left]

theorem machine32_xor (v w : BitVec 32) : machine32 big (v ^^^ w) =
    List.zipWith (· ^^^ ·) (machine32 big v) (machine32 big w) := by
  cases big
  · simp only [machine32, Bool.false_eq_true, if_false, bytes32_xor]
    rfl
  · exact bytes32_xor v w

theorem machine32_network (v : BitVec 32) : machine32 big (network32 big v) = bytes32 v := by
  cases big
  · simp only [machine32, network32, Bool.false_eq_true, if_false, bytes32_join]
    rfl
  · rfl

theorem machine32_value32 : machine32 big (value32 big mem o) = read mem o 4 := by
  cases big
  · simp only [machine32, value32, Bool.false_eq_true, if_false, bytes32_join]
    rfl
  · simp only [machine32, value32, if_true, bytes32_join]
    rfl

theorem network32_value32 : network32 big (value32 big mem o) =
    join (mem o) (mem (o + 1)) (mem (o + 2)) (mem (o + 3)) := by
  cases big
  · have bytes := bytes32_join (mem (o + 3)) (mem (o + 2)) (mem (o + 1)) (mem o)
    simp only [bytes32, List.cons.injEq, and_true] at bytes
    obtain ⟨first, second, third, fourth⟩ := bytes
    simp only [network32, value32, Bool.false_eq_true, if_false, first, second, third, fourth]
  · rfl

theorem bytes32_value32 : bytes32 (network32 big (value32 big mem o)) = read mem o 4 := by
  rw [network32_value32, bytes32_join]
  rfl

theorem machine32_length (v : BitVec 32) : (machine32 big v).length = 4 := by
  cases big <;> rfl

end Four

end Bytes
