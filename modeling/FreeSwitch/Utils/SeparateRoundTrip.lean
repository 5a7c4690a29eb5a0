/-
**Joining and separating.**

A list of tokens is joined with a delimiter after the characters that `switch_separate_string` gives
a meaning to are escaped in each of them. Separating gives the tokens back, except where the joined
text begins with `^^`: this is the mark of a text that brings its own delimiter, and it also comes
about when the delimiter is `^` and the first two tokens are empty.

* `cleanup_escapeToken`: the cleaning inverts the escaping;
* `tokens_round_trip`: both, on the buffer.
-/

import FreeSwitch.Utils.SeparateInside

namespace FreeSwitch

open CString List StringMemory

/-! ### Escaping and joining -/

/-- The characters that are escaped as themselves, and a blank, which is `\s`. -/
def escapeByte (delim c : Char) : Text :=
  if c = '\\' ∨ c = '\'' ∨ c = delim then ['\\', c]
  else if c = ' ' then ['\\', 's']
  else [c]

def escapeToken (delim : Char) (token : Text) : Text := token.flatMap (escapeByte delim)

def joinTokens (delim : Char) (tokens : List Text) : Text :=
  [delim].intercalate (tokens.map (escapeToken delim))

section RoundTrip

variable {delim : Char}

theorem escapeToken_cons (c : Char) (token : Text) :
    escapeToken delim (c :: token) = escapeByte delim c ++ escapeToken delim token :=
  flatMap_cons ..

theorem escapeByte_cases (delim c : Char) :
    ((c = '\\' ∨ c = '\'' ∨ c = delim) ∧ escapeByte delim c = ['\\', c]) ∨
      (c = ' ' ∧ escapeByte delim c = ['\\', 's']) ∨
      (c ≠ '\\' ∧ c ≠ '\'' ∧ c ≠ delim ∧ c ≠ ' ' ∧ escapeByte delim c = [c]) := by
  unfold escapeByte
  split
  next special => exact .inl ⟨special, rfl⟩
  next plain =>
    simp only [not_or] at plain
    split
    next blank => exact .inr (.inl ⟨blank, rfl⟩)
    next other => exact .inr (.inr ⟨plain.1, plain.2.1, plain.2.2, other, rfl⟩)

/-! ### Cleaning -/

theorem cleanupFrom_escapeToken (notS : delim ≠ 's') (token dest : Text) :
    cleanupFrom (some delim) (escapeToken delim token) false dest dest.length = dest ++ token := by
  induction token generalizing dest with
  | nil => simp [escapeToken, cleanupFrom]
  | cons c token ih =>
    have more := ih (dest ++ [c])
    rw [length_append, append_assoc] at more
    rw [escapeToken_cons]
    rcases escapeByte_cases delim c with ⟨special, byte⟩ | ⟨rfl, byte⟩ | ⟨slash, mark, -, blank, byte⟩
    · have escaped : escapedChar (some delim) c = some c := by
        refine if_pos ?_
        rcases special with slash | mark | same
        · exact .inr (.inr (.inr slash))
        · exact .inl mark
        · exact .inr (.inr (.inl (congrArg some same.symm)))
      rw [byte, cons_append, cons_append, nil_append, cleanupFrom, escaped]
      exact more
    · have escaped : escapedChar (some delim) 's' = some ' ' := by
        have plain : ¬ ('s' = '\'' ∨ 's' = '"' ∨ some delim = some 's' ∨ 's' = '\\') := by
          simp [notS]
        rw [escapedChar, if_neg plain]
        rfl
      rw [byte, cons_append, cons_append, nil_append, cleanupFrom, escaped]
      exact more
    · rw [byte, cons_append, nil_append, cleanupFrom]
      · rw [if_neg (mark ·.1), if_pos (.inl blank)]
        exact more
      · exact fun _ _ same _ => slash same

theorem cleanup_escapeToken (notS : delim ≠ 's') (token : Text) :
    cleanupSeparatedString (some delim) (escapeToken delim token) = token := by
  have first : skipSpaces (escapeToken delim token) = escapeToken delim token := by
    cases token with
    | nil => rfl
    | cons c token =>
      rw [escapeToken_cons]
      rcases escapeByte_cases delim c with ⟨-, byte⟩ | ⟨-, byte⟩ | ⟨-, -, -, blank, byte⟩
      · rw [byte]
        rfl
      · rw [byte]
        rfl
      · rw [byte]
        exact dropWhile_cons_of_neg (by simpa using blank)
  rw [cleanupSeparatedString, first]
  exact cleanupFrom_escapeToken notS token []

/-! ### Cutting -/

def Passed (delim : Char) (piece : Text) : Prop :=
  ∀ rest, findDelim false delim false (piece ++ rest) =
    (findDelim false delim false rest).map fun found => (piece ++ found.1, found.2)

theorem passed_nil : Passed delim [] := fun rest => by simp

variable {piece s : Text}

theorem Passed.cons {c : Char} (slash : c ≠ '\\') (mark : c ≠ '\'') (other : c ≠ delim)
    (passed : Passed delim piece) : Passed delim (c :: piece) := by
  intro rest
  rw [cons_append, findDelim, if_neg (mark ·.1), if_neg (other ·.1), passed, Option.map_map]
  · rfl
  · exact fun same _ => slash same
  · exact fun _ _ same _ => slash same

theorem Passed.escaped (passed : Passed delim piece) (c : Char) :
    Passed delim ('\\' :: c :: piece) := by
  intro rest
  rw [cons_append, cons_append, findDelim, passed, Option.map_map]
  rfl

theorem escapeToken_passed (token : Text) : Passed delim (escapeToken delim token) := by
  induction token with
  | nil => exact passed_nil
  | cons c token ih =>
    rw [escapeToken_cons]
    rcases escapeByte_cases delim c with ⟨-, byte⟩ | ⟨-, byte⟩ | ⟨slash, mark, other, -, byte⟩
    · rw [byte]
      exact ih.escaped c
    · rw [byte]
      exact ih.escaped 's'
    · rw [byte]
      exact ih.cons slash mark other

theorem escapeToken_ne_nil {token : Text} (some : token ≠ []) : escapeToken delim token ≠ [] := by
  obtain ⟨c, token, rfl⟩ := exists_cons_of_ne_nil some
  rw [escapeToken_cons]
  rcases escapeByte_cases delim c with ⟨-, byte⟩ | ⟨-, byte⟩ | ⟨-, -, -, -, byte⟩ <;>
    simp [byte]

theorem joinTokens_single (token : Text) : joinTokens delim [token] = escapeToken delim token :=
  intercalate_singleton ..

theorem joinTokens_cons (token next : Text) (tokens : List Text) :
    joinTokens delim (token :: next :: tokens) =
      escapeToken delim token ++ delim :: joinTokens delim (next :: tokens) := by
  rw [joinTokens, map_cons, map_cons, intercalate_cons_cons, append_assoc]
  rfl

theorem Passed.findDelim (passed : Passed delim piece) (slash : delim ≠ '\\') (mark : delim ≠ '\'')
    (rest : Text) :
    findDelim false delim false (piece ++ delim :: rest) = some (piece, some rest) := by
  have found : FreeSwitch.findDelim false delim false (delim :: rest) = some ([], some rest) := by
    rw [FreeSwitch.findDelim, if_neg (mark ·.1), if_pos ⟨rfl, rfl⟩]
    · exact fun same _ => slash same
    · exact fun _ _ same _ => slash same
  rw [passed, found, Option.map_some, append_nil]

theorem pieces_last (next : Text → Option (Text × Option Text)) (nonempty : s ≠ []) :
    pieces next 1 s = some [s] := by
  obtain ⟨c, s, rfl⟩ := exists_cons_of_ne_nil nonempty
  rfl

theorem pieces_more {next : Text → Option (Text × Option Text)} {rest : Option Text}
    (found : next s = some (piece, rest)) (nonempty : s ≠ []) (room : Nat) :
    pieces next (room + 2) s =
      rest.elim (some [piece]) fun rest => (pieces next (room + 1) rest).map (piece :: ·) := by
  obtain ⟨c, s, rfl⟩ := exists_cons_of_ne_nil nonempty
  rw [pieces, found]
  · cases rest <;> rfl
  · exact nofun

theorem charPieces_intercalate (slash : delim ≠ '\\') (mark : delim ≠ '\'') {parts : List Text}
    (passed : ∀ part ∈ parts, Passed delim part) {arraylen : Nat} (fits : parts.length ≤ arraylen)
    (last : ∀ part ∈ parts.getLast?, part ≠ []) :
    charPieces delim arraylen ([delim].intercalate parts) = some parts := by
  induction parts generalizing arraylen with
  | nil =>
    cases arraylen with
    | zero => rfl
    | succ room => cases room <;> rfl
  | cons part parts ih =>
    have here : Passed delim part := passed part mem_cons_self
    cases parts with
    | nil =>
      have nonempty : part ≠ [] := last part rfl
      have whole : findDelim false delim false part = some (part, none) := by
        have alone := here []
        rwa [append_nil, findDelim, Option.map_some, append_nil] at alone
      rw [intercalate_singleton, charPieces]
      obtain _ | _ | room := arraylen
      · exact absurd fits (by simp)
      · exact pieces_last _ nonempty
      · exact pieces_more whole nonempty room
    | cons next parts =>
      have shape : [delim].intercalate (part :: next :: parts) =
          part ++ delim :: [delim].intercalate (next :: parts) := by
        rw [intercalate_cons_cons, append_assoc]
        rfl
      have nonempty : part ++ delim :: [delim].intercalate (next :: parts) ≠ [] := by simp
      have cut := here.findDelim slash mark ([delim].intercalate (next :: parts))
      obtain _ | _ | room := arraylen
      · exact absurd fits (by simp)
      · exact absurd fits (by simp)
      · have fits : (next :: parts).length ≤ room + 1 := by
          simp only [length_cons] at fits ⊢
          omega
        have more := ih (fun p member => passed p (mem_cons_of_mem _ member)) fits
          (by rwa [getLast?_cons_cons] at last)
        rw [shape, charPieces, pieces_more cut nonempty room, Option.elim_some]
        rw [charPieces] at more
        rw [more]
        rfl

/-! ### The round trip -/

/-- The joined text begins with `^^` and has two more characters at least: the delimiter is `^`, and
it stands behind two empty tokens. -/
def LooksOwn (delim : Char) (tokens : List Text) : Prop :=
  delim = '^' ∧ ∃ rest, tokens = [] :: [] :: rest ∧ 2 ≤ (joinTokens delim rest).length

theorem escapeToken_hat {a : Char} {token rest : Text}
    (begins : escapeToken delim (a :: token) ++ s = '^' :: rest) :
    a = '^' ∧ delim ≠ '^' ∧ escapeToken delim token ++ s = rest := by
  rw [escapeToken_cons] at begins
  rcases escapeByte_cases delim a with ⟨-, byte⟩ | ⟨-, byte⟩ | ⟨-, -, other, -, byte⟩
  · rw [byte] at begins
    cases begins
  · rw [byte] at begins
    cases begins
  · rw [byte] at begins
    obtain ⟨rfl, rest⟩ := List.cons.inj begins
    exact ⟨rfl, other.symm, rest⟩

theorem joined_plain {tokens : List Text} (head : ∀ token ∈ tokens.head?, ¬ ['^', '^'] <+: token)
    (plain : ¬ LooksOwn delim tokens) (own c : Char) (rest : Text) :
    joinTokens delim tokens ≠ '^' :: '^' :: own :: c :: rest := by
  intro begins
  match tokens with
  | [] => cases begins
  | [token] =>
    rw [joinTokens_single, ← append_nil (escapeToken delim token)] at begins
    match token with
    | [] => cases begins
    | [a] => cases (escapeToken_hat begins).2.2
    | a :: b :: token =>
      obtain ⟨rfl, -, begins⟩ := escapeToken_hat begins
      obtain ⟨rfl, -, -⟩ := escapeToken_hat begins
      exact head _ rfl ⟨token, rfl⟩
  | token :: next :: tokens =>
    rw [joinTokens_cons] at begins
    match token with
    | [] =>
      obtain ⟨rfl, begins⟩ := List.cons.inj begins
      -- the first delimiter; the second one stands behind an empty token, too
      match next, tokens with
      | [], [] => cases begins
      | [], third :: tokens =>
        rw [joinTokens_cons] at begins
        obtain ⟨-, begins⟩ := List.cons.inj begins
        exact plain ⟨rfl, third :: tokens, rfl, by rw [begins]; simp⟩
      | a :: next, [] =>
        rw [joinTokens_single, ← append_nil (escapeToken _ _)] at begins
        exact (escapeToken_hat begins).2.1 rfl
      | a :: next, third :: tokens =>
        rw [joinTokens_cons] at begins
        exact (escapeToken_hat begins).2.1 rfl
    | [a] =>
      obtain ⟨rfl, other, begins⟩ := escapeToken_hat begins
      exact other (List.cons.inj begins).1
    | a :: b :: token =>
      obtain ⟨rfl, -, begins⟩ := escapeToken_hat begins
      obtain ⟨rfl, -, -⟩ := escapeToken_hat begins
      exact head _ rfl ⟨token, rfl⟩

theorem separateString_joined
    (ordinary : delim ∉ ['n', 'r', 't', 's', ' ', '\'', '\\']) {tokens : List Text} {arraylen : Nat}
    (fits : tokens.length ≤ arraylen) (last : ∀ token ∈ tokens.getLast?, token ≠ [])
    (head : ∀ token ∈ tokens.head?, ¬ ['^', '^'] <+: token) (plain : ¬ LooksOwn delim tokens) :
    separateString (joinTokens delim tokens) delim arraylen = some tokens := by
  simp only [mem_cons, not_mem_nil, or_false, not_or] at ordinary
  obtain ⟨-, -, -, notS, blank, mark, slash⟩ := ordinary
  have passed : ∀ part ∈ tokens.map (escapeToken delim), Passed delim part := by
    simpa using fun token _ => escapeToken_passed token
  have last' : ∀ part ∈ (tokens.map (escapeToken delim)).getLast?, part ≠ [] := by
    simpa using fun token isLast => escapeToken_ne_nil (last token isLast)
  rw [separateString_plain (joined_plain head plain), separateAt, if_neg blank, joinTokens,
    charPieces_intercalate slash mark passed (by simpa using fits) last', Option.map_some,
    map_map]
  congr 1
  refine (map_congr_left fun token _ => ?_).trans (map_id tokens)
  exact cleanup_escapeToken notS token

end RoundTrip

/-- **The round trip on the buffer**: the pointers that are stored are to the tokens, in their
order. -/
theorem tokens_round_trip {delim : Char} {tokens : List Text} {arraylen : Nat} {mem : Memory}
    (fits : tokens.length ≤ arraylen) (last : ∀ token ∈ tokens.getLast?, token ≠ [])
    (head : ∀ token ∈ tokens.head?, ¬ ['^', '^'] <+: token)
    (ordinary : delim ∉ ['n', 'r', 't', 's', ' ', '\'', '\\']) (plain : ¬ LooksOwn delim tokens)
    (holds : Holds mem 0 (joinTokens delim tokens)) :
    ∃ mem' array, separateInPlace ((joinTokens delim tokens).length + 1) mem 0 delim arraylen =
        .ok (mem', array) ∧
      Spread mem' 0 ((joinTokens delim tokens).length + 1) array tokens := by
  by_cases none : arraylen = 0
  · obtain rfl : tokens = [] := length_eq_zero_iff.mp (by omega)
    exact ⟨mem, [], by rw [separateInPlace, if_pos none]; rfl, trivial⟩
  · have spec := separateInPlace_spec holds delim none
    rw [separateString_joined ordinary fits last head plain] at spec
    exact spec

/-- The instance of the tokens `a b` and `c,d`. -/
theorem tokens_round_trip_two :
    let tokens := ["a b".toList, "c,d".toList]
    ∃ mem' array, separateInPlace ((joinTokens ',' tokens).length + 1)
        (ofText (joinTokens ',' tokens)) 0 ',' 2 = .ok (mem', array) ∧
      Spread mem' 0 ((joinTokens ',' tokens).length + 1) array tokens :=
  tokens_round_trip (by decide) (by decide) (by decide) (by decide)
    (fun own => absurd own.1 (by decide)) (holds_ofText (by decide))

/-- **Two empty tokens before the delimiter `^` are taken for the mark of a delimiter**: of the
tokens `""`, `""` and `xy`, all joined with `^`, one piece comes back, `y`. -/
theorem own_delimiter_in_joined : joinTokens '^' [[], [], ['x', 'y']] = "^^xy" ∧
    separateString (joinTokens '^' [[], [], ['x', 'y']]) '^' 3 = some [['y']] := by
  decide

end FreeSwitch
