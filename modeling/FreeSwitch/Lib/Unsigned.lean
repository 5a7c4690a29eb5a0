/-
**Unsigned machine arithmetic.**

An unsigned integer of `w` bits is a natural number below `2 ^ w`; sums and differences are taken
modulo `2 ^ w`.

* `add_of_lt`, `sub_of_le`: where nothing wraps, they are those of the natural numbers.
-/

import Mathlib

namespace Unsigned

def add (w a b : Nat) : Nat := (a + b) % 2 ^ w

def sub (w a b : Nat) : Nat := (a + (2 ^ w - b % 2 ^ w)) % 2 ^ w

variable {w a b : Nat}

theorem add_of_lt (small : a + b < 2 ^ w) : add w a b = a + b := Nat.mod_eq_of_lt small

theorem add_lt (w a b : Nat) : add w a b < 2 ^ w := Nat.mod_lt _ (Nat.two_pow_pos w)

theorem sub_lt (w a b : Nat) : sub w a b < 2 ^ w := Nat.mod_lt _ (Nat.two_pow_pos w)

theorem sub_of_le (order : b ≤ a) (small : a < 2 ^ w) : sub w a b = a - b := by
  have reduced : b % 2 ^ w = b := Nat.mod_eq_of_lt (order.trans_lt small)
  have shape : a + (2 ^ w - b) = a - b + 2 ^ w := by omega
  rw [sub, reduced, shape, Nat.add_mod_right]
  exact Nat.mod_eq_of_lt (by omega)

end Unsigned
