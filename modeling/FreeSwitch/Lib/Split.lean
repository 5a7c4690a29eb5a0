/-
**Texts with a separator.**

* `cutStr_found`, `cutStr_none_iff`: what the search for a separator says about the text;
* `splitStr_append`: two texts with a separator between them have the pieces of both.
-/

import FreeSwitch.Lib.CString

namespace CString

open List

variable {c : Char} {d : Text}

theorem cutStr_found {s piece rest : Text} (found : cutStr c d s = (piece, some rest)) :
    s = piece ++ c :: (d ++ rest) ∧ ¬ (c :: d) <:+: piece := by
  induction s generalizing piece with
  | nil => cases found
  | cons a s ih =>
    rw [cutStr] at found
    by_cases here : a = c ∧ d.isPrefixOf s = true
    · rw [if_pos here, Prod.mk.injEq] at found
      obtain ⟨rfl, tail⟩ := found
      obtain ⟨rfl, front⟩ := here
      obtain ⟨rest', rfl⟩ := List.isPrefixOf_iff_prefix.mp front
      rw [drop_left, Option.some.injEq] at tail
      subst tail
      exact ⟨rfl, by simp⟩
    · rw [if_neg here, Prod.mk.injEq] at found
      obtain ⟨rfl, tail⟩ := found
      obtain ⟨whole, absent⟩ := ih (Prod.ext rfl tail)
      refine ⟨congrArg (a :: ·) whole, fun inside => ?_⟩
      rcases infix_cons_iff.mp inside with front | later
      · obtain ⟨same, within⟩ := cons_prefix_cons.mp front
        have after : (cutStr c d s).1 <+: s := ⟨_, whole.symm⟩
        exact here ⟨same.symm, List.isPrefixOf_iff_prefix.mpr (within.trans after)⟩
      · exact absent later

theorem cutStr_none_iff {s : Text} : (cutStr c d s).2 = none ↔ ¬ (c :: d) <:+: s := by
  constructor
  · intro nothing inside
    obtain ⟨front, back, whole⟩ := inside
    induction s generalizing front with
    | nil => simp at whole
    | cons a s ih =>
      rw [cutStr] at nothing
      by_cases here : a = c ∧ d.isPrefixOf s = true
      · rw [if_pos here] at nothing
        cases nothing
      · rw [if_neg here] at nothing
        cases front with
        | nil =>
          obtain ⟨rfl, tail⟩ := List.cons.inj whole
          exact here ⟨rfl, List.isPrefixOf_iff_prefix.mpr ⟨back, tail⟩⟩
        | cons b front => exact ih nothing front (List.cons.inj whole).2
  · intro absent
    rw [cutStr_absent absent]

theorem splitStr_append (single : c ∉ d) (a b : Text) :
    splitStr c d (a ++ c :: (d ++ b)) = splitStr c d a ++ splitStr c d b := by
  induction a using splitStr.induct (c := c) (d := d) with
  | case1 a found =>
    have cut := cutStr_append single (cutStr_none_iff.mp found) b
    rw [splitStr_none found, splitStr_some (by rw [cut]), cut]
    rfl
  | case2 a t found ih =>
    obtain ⟨whole, absent⟩ := cutStr_found (Prod.ext rfl found)
    have cut := cutStr_append single absent (t ++ c :: (d ++ b))
    have same : a ++ c :: (d ++ b) =
        (cutStr c d a).1 ++ c :: (d ++ (t ++ c :: (d ++ b))) := by
      nth_rewrite 1 [whole]
      simp only [append_assoc, cons_append]
    rw [same, splitStr_some (by rw [cut]), cut, ih, splitStr_some found]
    rfl

end CString
