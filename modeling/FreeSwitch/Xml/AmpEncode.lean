/-
**Encoding an attribute.**

`switch_xml_ampencode` writes entities for the characters that mean something in XML, and for what is
not ASCII. At a `<` with a `!` behind it, it stops doing so and copies the rest of the text.

* `attribute_injection_free`: an attribute has no `<`, no quotation mark and no `&` of its own, exactly
  where its value has no `<!`.
-/

import FreeSwitch.Lib.Percent

namespace FreeSwitch

open CString List

/-- The variables `immune`, `expecting_x_utf_8_char` and `unicode_char`. -/
structure AmpState where
  immune : Bool
  expecting : Nat
  unicodeChar : Nat

/-- `%X`. -/
def hexText (n : Nat) : Text := if n = 0 then ['0'] else (Nat.digits 16 n).reverse.map Percent.hexDigit

/-- `&#x%X;`. -/
def numericEntity (n : Nat) : Text := "&#x" ++ hexText n ++ [';']

def leadingOnes (byte : Nat) : Nat :=
  if byte / 64 % 2 = 0 then 1 else if byte / 32 % 2 = 0 then 2 else if byte / 16 % 2 = 0 then 3 else 4

def ampOther (s : AmpState) (c : Char) : AmpState × Text :=
  let byte := c.toNat
  if s.expecting = 0 then
    if byte < 128 then (s, [c])
    else
      let unicodeChar := match leadingOnes byte with
        | 2 => byte % 32
        | 3 => byte % 16
        | 4 => byte % 8
        | _ => s.unicodeChar
      ({ s with expecting := leadingOnes byte - 1, unicodeChar }, [])
  else if byte / 64 % 4 = 2 then
    let unicodeChar := s.unicodeChar * 64 + byte % 64
    ({ s with expecting := s.expecting - 1, unicodeChar },
      if s.expecting = 1 then numericEntity unicodeChar else [])
  else ({ s with expecting := 0 }, [])

/-- One character, with the one behind it; `a` is for an attribute. -/
def ampChar (a : Bool) (s : AmpState) (c : Char) (next : Option Char) : AmpState × Text :=
  if s.immune then (s, [c])
  else if c = '&' then (s, "&amp;")
  else if c = '<' then
    if next = some '!' then ({ s with immune := true }, [c]) else (s, "&lt;")
  else if c = '>' then (s, "&gt;")
  else if c = '"' then (s, if a then "&quot;" else [c])
  else if c = '\n' then (s, if a then "&#xA;" else [c])
  else if c = '\t' then (s, if a then "&#x9;" else [c])
  else if c = '\r' then (s, "&#xD;")
  else ampOther s c

/-- `switch_xml_ampencode`, for a text without a given length. -/
def ampEncode (a : Bool) : AmpState → Text → Text
  | _, [] => []
  | s, c :: t => (ampChar a s c t.head?).2 ++ ampEncode a (ampChar a s c t.head?).1 t

/-- What `switch_xml_toxml_r` writes for the value of an attribute. -/
def attributeText (value : Text) : Text := ampEncode true ⟨false, 0, 0⟩ value

def IsEntity (e : Text) : Prop :=
  e ∈ ["&amp;".toList, "&lt;".toList, "&gt;".toList, "&quot;".toList] ∨ ∃ n, e = numericEntity n

/-- **A text that can not end the attribute or begin anything in it.** -/
def InjectionFree (text : Text) : Prop :=
  '<' ∉ text ∧ '"' ∉ text ∧ ∀ t, '&' :: t <:+ text → ∃ e, IsEntity e ∧ e <+: '&' :: t

/-! ### One character -/

def Harmless (piece : Text) : Prop :=
  IsEntity piece ∨ '<' ∉ piece ∧ '"' ∉ piece ∧ '&' ∉ piece

theorem IsEntity.shape {e : Text} (entity : IsEntity e) :
    ∃ t, e = '&' :: t ∧ '<' ∉ t ∧ '"' ∉ t ∧ '&' ∉ t := by
  rcases entity with named | ⟨n, rfl⟩
  · fin_cases named <;> exact ⟨_, rfl, by decide⟩
  · have digits : ∀ c ∈ hexText n, c ≠ '<' ∧ c ≠ '"' ∧ c ≠ '&' := by
      intro c member
      unfold hexText at member
      split_ifs at member with zero
      · rw [mem_singleton.mp member]
        decide
      · obtain ⟨d, digit, rfl⟩ := mem_map.mp member
        have small := Nat.digits_lt_base (by decide) (mem_reverse.mp digit)
        exact (by decide : ∀ d < 16, Percent.hexDigit d ≠ '<' ∧ Percent.hexDigit d ≠ '"' ∧
          Percent.hexDigit d ≠ '&') d small
    have all : ∀ c ∈ "#x".toList ++ hexText n ++ [';'], c ≠ '<' ∧ c ≠ '"' ∧ c ≠ '&' := by
      simp only [mem_append]
      rintro c ((sign | digit) | last)
      · fin_cases sign <;> decide
      · exact digits c digit
      · fin_cases last
        decide
    exact ⟨_, rfl, fun m => (all _ m).1 rfl, fun m => (all _ m).2.1 rfl, fun m => (all _ m).2.2 rfl⟩

theorem ampOther_harmless (s : AmpState) {c : Char} (plain : c ≠ '<' ∧ c ≠ '"' ∧ c ≠ '&') :
    Harmless (ampOther s c).2 := by
  have nothing : Harmless [] := .inr (by decide)
  unfold ampOther
  dsimp only
  split_ifs
  · exact .inr ⟨by simp [plain.1.symm], by simp [plain.2.1.symm], by simp [plain.2.2.symm]⟩
  · exact nothing
  · exact .inl (.inr ⟨_, rfl⟩)
  · exact nothing
  · exact nothing

theorem ampChar_harmless {s : AmpState} (wary : s.immune = false) {c : Char} {next : Option Char}
    (fine : c = '<' → next ≠ some '!') :
    (ampChar true s c next).1.immune = false ∧ Harmless (ampChar true s c next).2 := by
  have amp : Harmless "&amp;" := .inl (.inl (by decide))
  have lt : Harmless "&lt;" := .inl (.inl (by decide))
  have gt : Harmless "&gt;" := .inl (.inl (by decide))
  have quot : Harmless "&quot;" := .inl (.inl (by decide))
  have feed : Harmless "&#xA;" := .inl (.inr ⟨10, by decide⟩)
  have tab : Harmless "&#x9;" := .inl (.inr ⟨9, by decide⟩)
  have ret : Harmless "&#xD;" := .inl (.inr ⟨13, by decide⟩)
  unfold ampChar
  simp only [wary, Bool.false_eq_true, if_false, if_true]
  split_ifs with isAmp opens bang _ quotes
  · exact ⟨wary, amp⟩
  · exact absurd bang (fine opens)
  · exact ⟨wary, lt⟩
  · exact ⟨wary, gt⟩
  · exact ⟨wary, quot⟩
  · exact ⟨wary, feed⟩
  · exact ⟨wary, tab⟩
  · exact ⟨wary, ret⟩
  · refine ⟨?_, ampOther_harmless s ⟨opens, quotes, isAmp⟩⟩
    unfold ampOther
    dsimp only
    split_ifs <;> exact wary

/-! ### The whole text -/

theorem suffix_of_not_mem {c : Char} {piece rest t : Text} (absent : c ∉ piece)
    (ends : c :: t <:+ piece ++ rest) : c :: t <:+ rest := by
  induction piece with
  | nil => exact ends
  | cons d piece ih =>
    rw [mem_cons, not_or] at absent
    rcases suffix_cons_iff.mp ends with whole | later
    · exact absurd (List.cons.inj whole).1 absent.1
    · exact ih absent.2 later

theorem InjectionFree.append {piece rest : Text} (harmless : Harmless piece)
    (free : InjectionFree rest) : InjectionFree (piece ++ rest) := by
  obtain ⟨open_, quote, amps⟩ := free
  rcases harmless with entity | ⟨noOpen, noQuote, noAmp⟩
  · obtain ⟨tail, rfl, noOpen, noQuote, noAmp⟩ := entity.shape
    refine ⟨by simp [noOpen, open_], by simp [noQuote, quote], fun t ends => ?_⟩
    rcases suffix_cons_iff.mp ends with whole | later
    · exact ⟨_, entity, whole ▸ prefix_append _ _⟩
    · exact amps t (suffix_of_not_mem noAmp later)
  · exact ⟨by simp [noOpen, open_], by simp [noQuote, quote], fun t ends =>
      amps t (suffix_of_not_mem noAmp ends)⟩

theorem ampEncode_free {s : AmpState} (wary : s.immune = false) {value : Text}
    (clean : ¬ "<!" <:+: value) : InjectionFree (ampEncode true s value) := by
  induction value generalizing s with
  | nil => exact ⟨nofun, nofun, fun t ends => absurd (suffix_nil.mp ends) nofun⟩
  | cons c t ih =>
    have fine : c = '<' → t.head? ≠ some '!' := by
      rintro rfl first
      obtain ⟨rest, rfl⟩ := head?_eq_some_iff.mp first
      exact clean ⟨[], rest, rfl⟩
    obtain ⟨stays, harmless⟩ := ampChar_harmless wary fine
    exact .append harmless (ih stays fun inside => clean (inside.trans (suffix_cons c t).isInfix))

theorem mem_ampEncode {front back : Text} (s : AmpState) :
    '<' ∈ ampEncode true s (front ++ '<' :: '!' :: back) := by
  induction front generalizing s with
  | nil =>
    rw [nil_append, ampEncode]
    refine mem_append_left _ ?_
    unfold ampChar
    split_ifs <;> simp_all
  | cons c front ih =>
    rw [cons_append, ampEncode]
    exact mem_append_right _ (ih _)

/-- **An attribute is free of injections exactly where its value has no `<!`.** -/
theorem attribute_injection_free (value : Text) :
    InjectionFree (attributeText value) ↔ ¬ "<!" <:+: value := by
  refine ⟨fun free inside => ?_, ampEncode_free rfl⟩
  obtain ⟨front, back, rfl⟩ := inside
  rw [append_assoc] at free
  exact free.1 (mem_ampEncode _)

/-- **A comment ends the attribute**: its text has a quotation mark and a tag. -/
theorem comment_injects :
    attributeText "<!\"><x>" = "<!\"><x>" ∧
      ¬ InjectionFree (attributeText "<!\"><x>") :=
  ⟨by decide, fun free => absurd free.1 (by decide)⟩

end FreeSwitch
