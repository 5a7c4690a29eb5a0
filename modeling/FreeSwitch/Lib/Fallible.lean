/-
**Calls that may fail.**

`Ends may r post` says that `r` returns a value with `post`, or that it fails and may. With `False`
for `may` it is total correctness, and with `True` it is partial correctness; a proof for any `may`
gives both.

* `Ends.bind`, `Ends.map`: the rules for a sequence;
* `Ends.returns`: a call that may not fail returns;
* `Avoids.bind`: a sequence does not fail in a way in which none of its parts does;
* `bind_eq_ok`: a sequence returns when its parts do.
-/

import Mathlib

namespace Fallible

variable {ε α β : Type} {may : Prop} {r : Except ε α} {post : α → Prop}

/-- The call returns a value with `post`, or it fails and may. -/
def Ends (may : Prop) (r : Except ε α) (post : α → Prop) : Prop :=
  match r with
  | .ok a => post a
  | .error _ => may

theorem Ends.mono {weaker : α → Prop} (ends : Ends may r post) (weak : ∀ a, post a → weaker a) :
    Ends may r weaker := by
  cases r with
  | error fault => exact ends
  | ok a => exact weak a ends

variable {f : α → Except ε β}

theorem Ends.bind {post' : β → Prop} (ends : Ends may r post)
    (next : ∀ a, post a → Ends may (f a) post') : Ends may (r >>= f) post' := by
  cases r with
  | error fault => exact ends
  | ok a => exact next a ends

theorem Ends.map {f : α → β} {post' : β → Prop} (ends : Ends may r post)
    (next : ∀ a, post a → post' (f a)) : Ends may (r.map f) post' := by
  cases r with
  | error fault => exact ends
  | ok a => exact next a ends

theorem Ends.of_returns {a : α} (ends : Ends may r post) (returns : r = .ok a) : post a := by
  subst returns
  exact ends

theorem Ends.returns (ends : Ends False r post) : ∃ a, r = .ok a ∧ post a := by
  cases r with
  | error fault => exact ends.elim
  | ok a => exact ⟨a, rfl, ends⟩

/-- The call does not fail in this way. -/
def Avoids (fault : ε) (r : Except ε α) : Prop := r ≠ .error fault

theorem Avoids.bind {fault : ε} (first : Avoids fault r)
    (next : ∀ a, r = .ok a → Avoids fault (f a)) : Avoids fault (r >>= f) := by
  cases r with
  | error other => exact fun same => first (congrArg _ (Except.error.inj same))
  | ok a => exact next a rfl

theorem Avoids.map {fault : ε} {f : α → β} (first : Avoids fault r) : Avoids fault (r.map f) :=
  Avoids.bind (f := fun a => .ok (f a)) first fun _ _ => nofun

theorem ok_bind (a : α) (f : α → Except ε β) : ((.ok a : Except ε α) >>= f) = f a := rfl

theorem bind_eq_ok {b : β} :
    r >>= f = .ok b ↔ ∃ a, r = .ok a ∧ f a = .ok b := by
  cases r with
  | error fault => exact ⟨nofun, nofun⟩
  | ok a => exact ⟨fun next => ⟨a, rfl, next⟩, fun ⟨_, same, next⟩ => by cases same; exact next⟩

end Fallible
