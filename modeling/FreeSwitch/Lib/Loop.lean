/-
**Loops that may not end.**

A loop is its body: from a state it goes on to another state or returns a result. `runFor n` takes
at most `n` passes, and the loop returns a result when some number of passes does.

* `not_returns_of_closed`: from a set of states in which the body always goes on and stays, the loop
  never returns.
-/

import Mathlib

namespace Loop

variable {σ β : Type} {body : σ → σ ⊕ β}

/-- At most `n` passes of the body. -/
def runFor (body : σ → σ ⊕ β) : Nat → σ → Option β
  | 0, _ => none
  | n + 1, s =>
    match body s with
    | .inl next => runFor body n next
    | .inr result => some result

def Returns (body : σ → σ ⊕ β) (s : σ) (result : β) : Prop := ∃ n, runFor body n s = some result

theorem runFor_goes {s next : σ} (goes : body s = .inl next) (n : Nat) :
    runFor body (n + 1) s = runFor body n next := by
  rw [runFor, goes]

theorem runFor_returns {s : σ} {result : β} (ends : body s = .inr result) (n : Nat) :
    runFor body (n + 1) s = some result := by
  rw [runFor, ends]

theorem runFor_mono {n m : Nat} {s : σ} {result : β} (more : n ≤ m)
    (ends : runFor body n s = some result) : runFor body m s = some result := by
  induction n generalizing m s with
  | zero => cases ends
  | succ n ih =>
    cases m with
    | zero => exact absurd more (Nat.not_succ_le_zero n)
    | succ m =>
      cases pass : body s with
      | inl next =>
        rw [runFor_goes pass] at ends ⊢
        exact ih (Nat.le_of_succ_le_succ more) ends
      | inr early =>
        rw [runFor_returns pass] at ends ⊢
        exact ends

theorem Returns.unique {s : σ} {a b : β} (first : Returns body s a) (second : Returns body s b) :
    a = b := by
  obtain ⟨n, left⟩ := first
  obtain ⟨m, right⟩ := second
  have left' := runFor_mono (Nat.le_max_left n m) left
  rw [runFor_mono (Nat.le_max_right n m) right] at left'
  exact (Option.some.inj left').symm

/-- **A loop that always goes on inside a set of states never returns.** -/
theorem not_returns_of_closed {I : σ → Prop} (closed : ∀ s, I s → ∃ next, body s = .inl next ∧ I next)
    {s : σ} (start : I s) (result : β) : ¬ Returns body s result := by
  rintro ⟨n, ends⟩
  induction n generalizing s with
  | zero => cases ends
  | succ n ih =>
    obtain ⟨next, goes, inside⟩ := closed s start
    rw [runFor_goes goes] at ends
    exact ih inside ends

theorem returns_goes {s next : σ} (goes : body s = .inl next) (result : β) :
    Returns body s result ↔ Returns body next result := by
  constructor
  · rintro ⟨n, ends⟩
    cases n with
    | zero => cases ends
    | succ n => exact ⟨n, by rwa [runFor_goes goes] at ends⟩
  · rintro ⟨n, ends⟩
    exact ⟨n + 1, by rwa [runFor_goes goes]⟩

end Loop
