/-
**Bytes in memory, with checked accesses and a byte order.**

A memory has a byte at every index, and `len` of them belong to the buffer. Every access is to a
range of indices and fails when one of them is not below `len`. `hosted` converts a number in place
from network order, which on a machine with the high byte first changes nothing.

* `load8_eq`, `load16_eq`, `toHost_eq`: an access inside the buffer succeeds;
* `value16_hosted`: what a machine reads after the conversion is the number in network order,
  `word`;
* `hosted_outside`: the conversion leaves the other bytes.
-/

import FreeSwitch.Lib.Fallible

namespace Bytes

open Fallible

abbrev Memory := Nat → BitVec 8

structure Outside where
  index : Nat
  size : Nat
deriving DecidableEq

def word (mem : Memory) (o : Nat) : Nat := (mem o).toNat * 256 + (mem (o + 1)).toNat

def value16 (big : Bool) (mem : Memory) (o : Nat) : Nat :=
  if big then (mem o).toNat * 256 + (mem (o + 1)).toNat
  else (mem (o + 1)).toNat * 256 + (mem o).toNat

/-- The `n` bytes at `o` converted in place from network order. -/
def hosted (big : Bool) (mem : Memory) (o n : Nat) : Memory := fun i =>
  if big = false ∧ o ≤ i ∧ i < o + n then mem (2 * o + n - 1 - i) else mem i

section Checked

variable (big : Bool) (len : Nat)

/-- An access to `n` bytes. -/
def access (o n : Nat) : Except Outside Unit := if o + n ≤ len then .ok () else .error ⟨o, n⟩

def load8 (mem : Memory) (o : Nat) : Except Outside Nat := do
  access len o 1
  return (mem o).toNat

def load16 (mem : Memory) (o : Nat) : Except Outside Nat := do
  access len o 2
  return value16 big mem o

/-- `*p = ntohs(*p)` and `*p = ntohl(*p)`. -/
def toHost (mem : Memory) (o n : Nat) : Except Outside Memory := do
  access len o n
  return hosted big mem o n

end Checked

/-! ### Sequences of accesses -/

section Access

variable {big : Bool} {len o n : Nat} {mem : Memory}

theorem access_eq (inside : o + n ≤ len) : access len o n = .ok () := if_pos inside

theorem load16_eq (inside : o + 2 ≤ len) : load16 big len mem o = .ok (value16 big mem o) := by
  rw [load16, access_eq inside]
  rfl

theorem toHost_eq (inside : o + n ≤ len) : toHost big len mem o n = .ok (hosted big mem o n) := by
  rw [toHost, access_eq inside]
  rfl

theorem load8_eq (inside : o + 1 ≤ len) : load8 len mem o = .ok (mem o).toNat := by
  rw [load8, access_eq inside]
  rfl

end Access

/-! ### Byte order -/

section Order

variable {big : Bool} {o n : Nat} {mem : Memory}

theorem hosted_outside {i : Nat} (other : i < o ∨ o + n ≤ i) : hosted big mem o n i = mem i :=
  if_neg (by omega)

theorem hosted_first : hosted false mem o 2 o = mem (o + 1) := by
  rw [hosted, if_pos ⟨rfl, by omega, by omega⟩]
  congr 1
  omega

theorem hosted_second : hosted false mem o 2 (o + 1) = mem o := by
  rw [hosted, if_pos ⟨rfl, by omega, by omega⟩]
  congr 1
  omega

theorem value16_hosted : value16 big (hosted big mem o 2) o = word mem o := by
  cases big with
  | true => simp [value16, hosted, word]
  | false =>
    rw [value16, if_neg nofun, hosted_first, hosted_second]
    rfl

theorem value16_congr {mem mem' : Memory} (first : mem o = mem' o)
    (second : mem (o + 1) = mem' (o + 1)) : value16 big mem o = value16 big mem' o := by
  rw [value16, value16, first, second]

theorem value16_hosted_outside {i : Nat} (apart : i + 2 ≤ o ∨ o + n ≤ i) :
    value16 big (hosted big mem o n) i = value16 big mem i :=
  value16_congr (hosted_outside (by omega)) (hosted_outside (by omega))

end Order

end Bytes
