/-
**Bounded searches in a table.**

`scan` looks at `n` cells of a table, from cell `i` on, for the first one that a test accepts. Every
look is checked: a cell that the table does not have is a fault.

* `scan_spec`: where the cells are there, a search has no fault, and what it finds passed the test.
-/

import Mathlib

namespace Scan

variable {α ε : Type}

/-- The first of `n` cells from `i` on that passes the test, with its place. -/
def scan (fault : ε) (test : α → Bool) (cells : List α) : Nat → Nat → Except ε (Option (Nat × α))
  | 0, _ => .ok none
  | n + 1, i =>
    match cells[i]? with
    | none => .error fault
    | some cell => if test cell then .ok (some (i, cell)) else scan fault test cells n (i + 1)

theorem scan_spec (fault : ε) (test : α → Bool) {cells : List α} {n i : Nat}
    (bound : i + n ≤ cells.length) :
    ∃ found, scan fault test cells n i = .ok found ∧
      ∀ hit ∈ found, hit.1 < i + n ∧ cells[hit.1]? = some hit.2 ∧ test hit.2 = true := by
  induction n generalizing i with
  | zero => exact ⟨none, rfl, nofun⟩
  | succ n ih =>
    have there : cells[i]? = some (cells.get ⟨i, by omega⟩) := List.getElem?_eq_getElem (by omega)
    rw [scan, there]
    dsimp only
    split
    next passed =>
      refine ⟨_, rfl, ?_⟩
      rintro hit ⟨⟩
      exact ⟨by omega, there, passed⟩
    next =>
      obtain ⟨found, runs, hits⟩ := ih (i := i + 1) (by omega)
      refine ⟨found, runs, fun hit member => ?_⟩
      obtain ⟨inside, rest⟩ := hits hit member
      exact ⟨by omega, rest⟩

end Scan
