/-
**Two functions of `switch_utils.c` that rewrite a text.**

`switch_amp_encode` writes entities into a buffer. It ends where the next one does not fit, without
writing the terminator, for which it also wants one byte more than there has to be.
`switch_string_replace` goes on behind every match, which is not further when the search is empty.

* **`amp_terminated_iff`**: the buffer is terminated exactly when the encoding is two bytes shorter;
* **`replaced_iff`**: the occurrences are replaced exactly when the search is not empty, or the
  string is.
-/

import FreeSwitch.Lib.CString

namespace FreeSwitch

open CString List

/-! ### Entities -/

/-- What `switch_amp_encode` writes for a character. -/
def ampText : Char → Text
  | '"' => "&quot;"
  | '\'' => "&apos;"
  | '&' => "&amp;"
  | '<' => "&lt;"
  | '>' => "&gt;"
  | c => [c]

/-- The bytes written by the loop, with the terminator if it comes to that. -/
def ampLoop (len : Nat) : Nat → Text → Text
  | x, [] => if x < len ∧ x + 1 ≤ len - 1 then ['\x00'] else []
  | x, c :: s =>
    if x < len ∧ x + (ampText c).length ≤ len - 1 then
      ampText c ++ ampLoop len (x + (ampText c).length) s
    else []

/-- `switch_amp_encode`, with what the buffer of `len` bytes held before. -/
def switchAmpEncode (s buf : Text) : Text :=
  ampLoop buf.length 0 s ++ buf.drop (ampLoop buf.length 0 s).length

/-- Nothing is written outside, and the buffer holds the encoding of a prefix up to a terminator. -/
def AmpTerminated (s buf : Text) : Prop :=
  (switchAmpEncode s buf).length = buf.length ∧ ∃ u, u <+: s ∧
    u.flatMap ampText ++ ['\x00'] <+: switchAmpEncode s buf

theorem ampLoop_spec {len : Nat} {s : Text} {x : Nat} (inside : x ≤ len) :
    x + (ampLoop len x s).length ≤ len ∧
      if x + (s.flatMap ampText).length + 2 ≤ len then
        ampLoop len x s = s.flatMap ampText ++ ['\x00']
      else ∃ u, u <+: s ∧ ampLoop len x s = u.flatMap ampText := by
  induction s generalizing x with
  | nil =>
    rw [ampLoop, flatMap_nil, length_nil]
    split_ifs with writes fits fits
    · exact ⟨by simp; omega, rfl⟩
    · omega
    · omega
    · exact ⟨inside, [], prefix_rfl, rfl⟩
  | cons c s ih =>
    rw [ampLoop, flatMap_cons, length_append]
    split_ifs with writes fits fits
    · obtain ⟨room, rest⟩ := ih (x := x + (ampText c).length) (by omega)
      rw [if_pos (by omega)] at rest
      exact ⟨by rw [length_append]; omega, by rw [rest, append_assoc]⟩
    · obtain ⟨room, rest⟩ := ih (x := x + (ampText c).length) (by omega)
      rw [if_neg (by omega)] at rest
      obtain ⟨u, front, same⟩ := rest
      exact ⟨by rw [length_append]; omega, c :: u, cons_prefix_cons.mpr ⟨rfl, front⟩, by
        rw [same, flatMap_cons]⟩
    · omega
    · exact ⟨inside, [], nil_prefix, rfl⟩

theorem nul_not_mem_ampText {c : Char} (other : c ≠ '\x00') : '\x00' ∉ ampText c := by
  unfold ampText
  split <;> first | decide | simpa using other.symm

/-- **`switch_amp_encode` leaves a terminated text in every buffer exactly when** the encoding of the
whole string takes two bytes less than the buffer has. -/
theorem amp_terminated_iff {s : Text} (text : '\x00' ∉ s) (len : Nat) :
    (∀ buf : Text, buf.length = len → AmpTerminated s buf) ↔ (s.flatMap ampText).length + 2 ≤ len := by
  obtain ⟨room, loop⟩ := ampLoop_spec (s := s) (Nat.zero_le len)
  rw [Nat.zero_add] at room loop
  constructor
  · intro all
    by_contra short
    rw [if_neg short] at loop
    obtain ⟨u, front, writes⟩ := loop
    -- a buffer without any terminator has none afterwards
    obtain ⟨-, v, -, ends⟩ := all (replicate len 'x') length_replicate
    have member : '\x00' ∈ switchAmpEncode s (replicate len 'x') :=
      ends.subset (mem_append_right _ mem_cons_self)
    rw [switchAmpEncode, length_replicate, writes, mem_append] at member
    obtain written | kept := member
    · obtain ⟨c, inside, nul⟩ := mem_flatMap.mp written
      exact nul_not_mem_ampText (fun same => text (same ▸ front.subset inside)) nul
    · cases eq_of_mem_replicate (mem_of_mem_drop kept)
  · rintro fits buf rfl
    rw [if_pos fits] at loop
    refine ⟨?_, s, prefix_rfl, ?_⟩
    · rw [switchAmpEncode, length_append, length_drop]
      omega
    · rw [switchAmpEncode, loop]
      exact prefix_append _ _

theorem amp_terminated_quote : AmpTerminated ['"'] (replicate 8 'x') :=
  (amp_terminated_iff (by decide) 8).mpr (by decide) _ rfl

/-- A text of two characters fills a buffer of three bytes, which has no terminator then. -/
theorem amp_unterminated : switchAmpEncode ['a', 'b'] ['x', 'x', 'x'] = ['a', 'b', 'x'] := by decide

/-! ### Replacing -/

section Replace

variable (search replace : Text)

/-- The loop of `switch_string_replace`, with the rest of the string and `dest`; behind a match it
goes on `search_len` bytes further. -/
def replaceLoop : Nat → Text → Text → Option Text
  | 0, _, _ => none
  | _ + 1, [], dest => some dest
  | fuel + 1, c :: s, dest =>
    if search.isPrefixOf (c :: s) then
      replaceLoop fuel ((c :: s).drop search.length) (dest ++ replace)
    else replaceLoop fuel s (dest ++ [c])

/-- What the function returns after so many passes of its loop. -/
def stringReplace (fuel : Nat) (string : Text) : Option Text :=
  replaceLoop search replace fuel string []

/-- The string with every occurrence of the search replaced, from left to right. -/
def replaced (string : Text) : Text :=
  match search with
  | [] => string
  | c :: d => replace.intercalate (splitStr c d string)

end Replace

variable {c : Char} {d replace : Text}

theorem replaceLoop_eq (fuel : Nat) : ∀ s dest : Text, s.length < fuel →
    replaceLoop (c :: d) replace fuel s dest = some (dest ++ replaced (c :: d) replace s) := by
  induction fuel with
  | zero => exact fun _ _ short => absurd short (Nat.not_lt_zero _)
  | succ fuel ih =>
    rintro (_ | ⟨a, s⟩) dest short
    · rw [replaced, splitStr_none rfl]
      simp [replaceLoop]
    · rw [replaceLoop]
      split_ifs with match_
      · obtain ⟨rest, whole⟩ := List.isPrefixOf_iff_prefix.mp match_
        obtain ⟨rfl, tail⟩ := List.cons.inj whole
        obtain rfl : d ++ rest = s := tail
        have found : cutStr c d (c :: (d ++ rest)) = ([], some rest) := by simp [cutStr]
        have later : (c :: (d ++ rest)).drop (c :: d).length = rest := drop_left
        have splits : splitStr c d (c :: (d ++ rest)) = [] :: splitStr c d rest := by
          rw [splitStr_some (congrArg Prod.snd found), found]
        rw [later, ih rest _ (by simp at short; omega), replaced, replaced, splits]
        obtain ⟨first, others, split⟩ := exists_cons_of_ne_nil (splitStr_ne_nil c d rest)
        simp [split]
      · have absent : ¬ (a = c ∧ d.isPrefixOf s = true) := fun both =>
          match_ (by simp [List.isPrefixOf, both.1, both.2])
        have cuts : cutStr c d (a :: s) = (a :: (cutStr c d s).1, (cutStr c d s).2) := by
          rw [cutStr, if_neg absent]
        rw [ih s _ (by simp at short; omega), replaced, replaced]
        cases found : (cutStr c d s).2 with
        | none => simp [splitStr_none found, splitStr_none (cuts ▸ found : (cutStr c d (a :: s)).2 = none)]
        | some t =>
          obtain ⟨first, others, split⟩ := exists_cons_of_ne_nil (splitStr_ne_nil c d t)
          rw [splitStr_some found, splitStr_some (cuts ▸ found : (cutStr c d (a :: s)).2 = some t), cuts]
          simp [split]

theorem replaceLoop_nil (s : Text) (fuel : Nat) (dest : Text) :
    replaceLoop [] replace fuel (c :: s) dest = none := by
  induction fuel generalizing dest with
  | zero => rfl
  | succ fuel ih => exact ih _

/-- **The function returns the string with all occurrences replaced exactly when** the search is not
empty, or the string is; else it does not return. -/
theorem replaced_iff (search replace string : Text) :
    (∃ fuel, stringReplace search replace fuel string = some (replaced search replace string)) ↔
      search ≠ [] ∨ string = [] := by
  cases search with
  | nil =>
    cases string with
    | nil => exact iff_of_true ⟨1, rfl⟩ (.inr rfl)
    | cons c s =>
      refine iff_of_false (fun ⟨fuel, returns⟩ => ?_) (by simp)
      rw [stringReplace, replaceLoop_nil] at returns
      cases returns
  | cons c d =>
    exact iff_of_true ⟨string.length + 1, replaceLoop_eq _ _ [] (Nat.lt_succ_self _)⟩
      (.inl (cons_ne_nil _ _))

/-- With an empty search the loop stays at the first character. -/
theorem empty_search_loops : ¬ ∃ fuel, stringReplace [] ['b'] fuel ['a'] = some ['a'] :=
  fun ⟨fuel, returns⟩ => nomatch (replaceLoop_nil [] fuel []).symm.trans returns

end FreeSwitch
