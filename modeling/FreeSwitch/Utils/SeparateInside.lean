/-
**`switch_separate_string` in place cuts as it does on texts.**

What the two loops have in common is that they look for a delimiter (`Finder`) and cut pieces off
(`Cutter`).

* `separate_inside_iff`: the texts with which it stays inside the string.
-/

import FreeSwitch.Utils.SeparateInPlace

namespace FreeSwitch

open CString Fallible List Option StringMemory

/-! ### Cutting in place -/

variable {mem : Memory} {len : Nat} {s : Text}

theorem findDelim_split {lone insideQuotes : Bool} {delim : Char} {piece : Text}
    {rest : Option Text} (found : findDelim lone delim insideQuotes s = some (piece, rest)) :
    s = piece ++ rest.elim [] (delim :: ·) := by
  fun_induction findDelim lone delim insideQuotes s generalizing piece with
  | case1 =>
    cases found
    rfl
  | case2 => cases found
  | case3 insideQuotes c behind ih =>
    obtain ⟨⟨_, _⟩, more, shape⟩ := map_eq_some_iff.mp found
    cases shape
    rw [ih more]
    rfl
  | case4 insideQuotes c behind _ _ _ ih =>
    obtain ⟨⟨_, _⟩, more, shape⟩ := map_eq_some_iff.mp found
    cases shape
    rw [ih more]
    rfl
  | case5 insideQuotes c behind _ _ _ same =>
    cases found
    rw [same.1]
    rfl
  | case6 insideQuotes c behind _ _ _ _ ih =>
    obtain ⟨⟨_, _⟩, more, shape⟩ := map_eq_some_iff.mp found
    cases shape
    rw [ih more]
    rfl

theorem ne_backslash {c : Char} {rest : Text} (alone : c = '\\' → rest = [] → False)
    (whole : ∀ e behind, c = '\\' → rest = e :: behind → False) : c ≠ '\\' := by
  intro slash
  cases rest with
  | nil => exact alone slash rfl
  | cons e behind => exact whole e behind slash rfl

section Cutting

variable {σ : Type} {len arraylen : Nat}

/-- What a loop does from `t` on, looking for a delimiter from `ptr` on: `after` is its state behind
one. -/
def Finds (loop : Tokenizer σ → Except Outside (Tokenizer σ)) (after : σ) (t : Tokenizer σ)
    (ptr : Nat) : Option (Text × Option Text) → Prop
  | none => ∃ outside, loop t = .error outside
  | some (_, none) => ∃ t', loop t = .ok t' ∧ t'.mem = t.mem ∧ t'.array = t.array
  | some (piece, some _) =>
    loop t = loop ⟨Function.update t.mem (ptr + piece.length) nul, ptr + piece.length + 1, after,
      false, t.array⟩

variable {s : Text} {t : Tokenizer σ} {loop : Tokenizer σ → Except Outside (Tokenizer σ)}
    {after : σ}

theorem Finds.pass {ptr : Nat} {found : Option (Text × Option Text)} (front : Text)
    (later : Tokenizer σ) (finds : Finds loop after later (ptr + front.length) found)
    (goes : loop t = loop later) (mem : later.mem = t.mem) (array : later.array = t.array) :
    Finds loop after t ptr (found.map fun found => (front ++ found.1, found.2)) := by
  match found, finds with
  | none, ⟨outside, fails⟩ => exact ⟨outside, goes.trans fails⟩
  | some (piece, none), ⟨last, runs, same, kept⟩ =>
    exact ⟨last, goes.trans runs, same.trans mem, kept.trans array⟩
  | some (piece, some rest), runs =>
    show loop t = loop _
    rw [goes, length_append, ← Nat.add_assoc]
    exact mem ▸ array ▸ runs

/-- A loop that looks for a delimiter in the state `find`. -/
structure Finder (loop : Tokenizer σ → Except Outside (Tokenizer σ)) (len arraylen : Nat)
    (find after : σ) (lone : Bool) (delim : Char) : Prop where
  past : ∀ t : Tokenizer σ, len ≤ t.ptr → ∃ outside, loop t = .error outside
  stops : ∀ t : Tokenizer σ, t.ptr < len → t.mem t.ptr = nul ∨ arraylen ≤ t.array.length →
    loop t = .ok t
  escape : ∀ t : Tokenizer σ, t.ptr < len → t.state = find → t.array.length < arraylen →
    t.mem t.ptr = '\\' → loop t = loop { t with ptr := t.ptr + 2 }
  byte : ∀ (t : Tokenizer σ) (c : Char) (s : Text), t.state = find → t.array.length < arraylen →
    Holds t.mem t.ptr (c :: s) → t.ptr + s.length + 1 < len → c ≠ '\\' →
    loop t =
      if c = '\'' ∧ (lone = true ∨ t.insideQuotes = true ∨ '\'' ∈ s) then
        loop { t with insideQuotes := !t.insideQuotes, ptr := t.ptr + 1 }
      else if c = delim ∧ t.insideQuotes = false then
        loop { t with mem := Function.update t.mem t.ptr nul, state := after, ptr := t.ptr + 1 }
      else loop { t with ptr := t.ptr + 1 }

/-- **A loop in place finds the delimiter that `findDelim` finds**, and runs out of the buffer
where it finds none because of a backslash at the end. -/
theorem Finder.finds {find : σ} {lone : Bool} {delim : Char}
    (finder : Finder loop len arraylen find after lone delim) {q : Bool}
    (holds : Holds t.mem t.ptr s) (ends : t.ptr + s.length + 1 = len)
    (state : t.state = find ∨ s = []) (quotes : t.insideQuotes = q)
    (room : t.array.length < arraylen) :
    Finds loop after t t.ptr (findDelim lone delim q s) := by
  fun_induction findDelim lone delim q s generalizing t with
  | case1 q =>
    exact ⟨t, finder.stops t (by simp at ends; omega) (.inl holds), rfl, rfl⟩
  | case2 q =>
    replace state := state.resolve_right (cons_ne_nil _ _)
    simp only [length_singleton] at ends
    obtain ⟨outside, fails⟩ := finder.past { t with ptr := t.ptr + 2 } (by simp only; omega)
    exact ⟨outside, (finder.escape t (by omega) state room holds.1).trans fails⟩
  | case3 q c rest ih =>
    replace state := state.resolve_right (cons_ne_nil _ _)
    simp only [length_cons] at ends
    refine Finds.pass ['\\', c] { t with ptr := t.ptr + 2 } ?_
      (finder.escape t (by omega) state room holds.1) rfl rfl
    exact ih holds.2.2.2.2 (by simp only; omega) (.inl state) quotes room
  | case4 q c rest alone whole counts ih =>
    replace state := state.resolve_right (cons_ne_nil _ _)
    simp only [length_cons] at ends
    have pass := finder.byte t c rest state room holds (by omega) (ne_backslash alone whole)
    rw [if_pos (quotes ▸ counts)] at pass
    refine Finds.pass [c] _ ?_ pass rfl rfl
    exact ih holds.2.2 (by simp only; omega) (.inl state) (by simp only [quotes]) room
  | case5 q c rest alone whole plain same =>
    replace state := state.resolve_right (cons_ne_nil _ _)
    simp only [length_cons] at ends
    have pass := finder.byte t c rest state room holds (by omega) (ne_backslash alone whole)
    rw [if_neg (quotes ▸ plain), if_pos (quotes ▸ same), quotes, same.2] at pass
    exact pass
  | case6 q c rest alone whole plain other ih =>
    replace state := state.resolve_right (cons_ne_nil _ _)
    simp only [length_cons] at ends
    have pass := finder.byte t c rest state room holds (by omega) (ne_backslash alone whole)
    rw [if_neg (quotes ▸ plain), if_neg (quotes ▸ other)] at pass
    refine Finds.pass [c] _ ?_ pass rfl rfl
    exact ih holds.2.2 (by simp only; omega) (.inl state) quotes room

/-- The rest `s` of the buffer is at the pointer, outside quotation marks. -/
structure Ready (len : Nat) (t : Tokenizer σ) (s : Text) : Prop where
  holds : Holds t.mem t.ptr s
  ends : t.ptr + s.length + 1 = len
  closed : t.insideQuotes = false

/-- What a loop does from the beginning of a piece, whose end `next` gives. -/
def CutsOff (loop : Tokenizer σ → Except Outside (Tokenizer σ)) (len : Nat) (begin : σ)
    (t : Tokenizer σ) (s : Text) : Option (Text × Option Text) → Prop
  | none => ∃ outside, loop t = .error outside
  | some (piece, none) =>
    piece = s ∧ ∃ t', loop t = .ok t' ∧ t'.mem = t.mem ∧ t'.array = t.array ++ [t.ptr]
  | some (piece, some rest) =>
    piece <+: s ∧ ∃ t', loop t = loop t' ∧ (t'.state = begin ∨ rest = []) ∧ Ready len t' rest ∧
      t'.mem = Function.update t.mem (t.ptr + piece.length) nul ∧
      t.ptr + piece.length < t'.ptr ∧ t'.array = t.array ++ [t.ptr]

theorem Finds.cutsOff {begin : σ} {lone : Bool} {delim : Char} {later : Tokenizer σ} (front : Text)
    (skip : Text → Text)
    (finds : Finds loop after later (t.ptr + front.length) (findDelim lone delim false s))
    (ready : Ready len t (front ++ s)) (goes : loop t = loop later) (mem : later.mem = t.mem)
    (array : later.array = t.array ++ [t.ptr])
    (settles : ∀ (t' : Tokenizer σ) (rest : Text), t'.state = after → Ready len t' rest →
      t'.array = t.array ++ [t.ptr] → ∃ t'', loop t' = loop t'' ∧
        (t''.state = begin ∨ skip rest = []) ∧ Ready len t'' (skip rest) ∧ t''.mem = t'.mem ∧
        t'.ptr ≤ t''.ptr ∧ t''.array = t'.array) :
    CutsOff loop len begin t (front ++ s)
      ((findDelim lone delim false s).map fun found => (front ++ found.1, found.2.map skip)) := by
  cases result : findDelim lone delim false s with
  | none =>
    rw [result] at finds
    obtain ⟨outside, fails⟩ := finds
    exact ⟨outside, goes.trans fails⟩
  | some found =>
    obtain ⟨piece, behind⟩ := found
    have split := findDelim_split result
    rw [result] at finds
    cases behind with
    | none =>
      obtain ⟨last, runs, same, kept⟩ := finds
      refine ⟨?_, last, goes.trans runs, same.trans mem, kept.trans array⟩
      rw [split]
      simp
    | some rest =>
      have cut : loop later = loop ⟨Function.update t.mem (t.ptr + (front ++ piece).length) nul,
          t.ptr + (front ++ piece).length + 1, after, false, t.array ++ [t.ptr]⟩ := by
        rw [length_append, ← Nat.add_assoc]
        exact mem ▸ array ▸ finds
      simp only [elim_some] at split
      have whole : front ++ s = (front ++ piece) ++ delim :: rest := by
        rw [split, append_assoc]
      have size : (front ++ s).length = (front ++ piece).length + 1 + rest.length := by
        rw [whole, length_append, length_cons]
        omega
      have ends := ready.ends
      have holds := Holds.behind (whole ▸ ready.holds)
      have behind : Ready len (⟨Function.update t.mem (t.ptr + (front ++ piece).length) nul,
          t.ptr + (front ++ piece).length + 1, after, false, t.array ++ [t.ptr]⟩ : Tokenizer σ)
          rest :=
        ⟨holds.2.2.store nul (.inl (by omega)), by simp only; omega, rfl⟩
      obtain ⟨t', moves, state, ready', mem', forward, array'⟩ := settles _ rest rfl behind rfl
      refine ⟨⟨delim :: rest, whole.symm⟩, t', goes.trans (cut.trans moves), state, ready', mem',
        ?_, array'⟩
      exact lt_of_lt_of_le (Nat.lt_succ_self _) forward

/-- A loop that cuts the pieces of `next` off. -/
structure Cutter (loop : Tokenizer σ → Except Outside (Tokenizer σ)) (len arraylen : Nat)
    (begin : σ) (next : Text → Option (Text × Option Text)) : Prop where
  stops : ∀ t : Tokenizer σ, t.ptr < len → t.mem t.ptr = nul ∨ arraylen ≤ t.array.length →
    loop t = .ok t
  last : ∀ (t : Tokenizer σ) (s : Text), t.state = begin → Ready len t s → s ≠ [] →
    t.array.length + 1 = arraylen → CutsOff loop len begin t s (some (s, none))
  cuts : ∀ (t : Tokenizer σ) (s : Text), t.state = begin → Ready len t s → s ≠ [] →
    t.array.length + 1 < arraylen → CutsOff loop len begin t s (next s)

variable {loop : Tokenizer σ → Except Outside (Tokenizer σ)} {begin : σ}
  {next : Text → Option (Text × Option Text)}

theorem CutsOff.spread {piece : Text} {low : Nat} {done : List Text}
    (cuts : CutsOff loop len begin t s (some (piece, none))) (ready : Ready len t s)
    (first : low ≤ t.ptr) (spread : Spread t.mem low t.ptr t.array done) :
    ∃ t', loop t = .ok t' ∧ Spread t'.mem low len t'.array (done ++ [piece]) := by
  obtain ⟨rfl, t', runs, same, array⟩ := cuts
  have ends := ready.ends
  refine ⟨t', runs, ?_⟩
  rw [same, array]
  exact spread.concat le_rfl first (by omega) ready.holds

/-- **A loop that cuts pieces off fills the array with them**, or runs out of the buffer where
`pieces` does. -/
theorem Cutter.pieces_spec (cutter : Cutter loop len arraylen begin next) {room : Nat} {low : Nat}
    {done : List Text} (state : t.state = begin ∨ s = []) (ready : Ready len t s)
    (places : t.array.length + room = arraylen) (first : low ≤ t.ptr)
    (spread : Spread t.mem low t.ptr t.array done) :
    match pieces next room s with
    | none => ∃ outside, loop t = .error outside
    | some raw => ∃ t', loop t = .ok t' ∧ Spread t'.mem low len t'.array (done ++ raw) := by
  have inside : t.ptr < len := by
    have ends := ready.ends
    omega
  fun_induction pieces next room s generalizing t done with
  | case1 s =>
    refine ⟨t, cutter.stops t inside (.inr (by omega)), ?_⟩
    rw [append_nil]
    exact spread.mono le_rfl inside.le
  | case2 room =>
    refine ⟨t, cutter.stops t inside (.inl ready.holds), ?_⟩
    rw [append_nil]
    exact spread.mono le_rfl inside.le
  | case3 s some =>
    exact (cutter.last t s (state.resolve_right some) ready some places).spread ready first spread
  | case4 room s some nothing =>
    have cuts := cutter.cuts t s (state.resolve_right some) ready some (by omega)
    rw [nothing] at cuts
    exact cuts
  | case5 room s some piece found =>
    have cuts := cutter.cuts t s (state.resolve_right some) ready some (by omega)
    rw [found] at cuts
    exact cuts.spread ready first spread
  | case6 room s some piece rest found ih =>
    have cuts := cutter.cuts t s (state.resolve_right some) ready some (by omega)
    rw [found] at cuts
    obtain ⟨⟨back, rfl⟩, t', runs, state', ready', mem', beyond, array⟩ := cuts
    have ends := ready'.ends
    -- the piece that was cut off joins those in front of it
    have front : Spread t'.mem low t.ptr t.array done :=
      spread.congr fun i low' high' => by rw [mem', Function.update_of_ne (by omega)]
    have joined : Spread t'.mem low t'.ptr t'.array (done ++ [piece]) := by
      rw [array]
      refine front.concat le_rfl first beyond ?_
      rw [mem']
      exact ready.holds.cutAt
    have rest' := ih state' ready' (by rw [array, length_append, length_singleton]; omega)
      (by omega) joined (by omega)
    rw [runs]
    cases more : pieces next (room + 1) rest with
    | none =>
      rw [more] at rest'
      exact rest'
    | some raw =>
      rw [more] at rest'
      obtain ⟨last, ok, all⟩ := rest'
      refine ⟨last, ok, ?_⟩
      rwa [append_assoc, singleton_append] at all

end Cutting

/-! ### The two loops -/

theorem goes_on {σ : Type} {t : Tokenizer σ} {arraylen : Nat} (byte : t.mem t.ptr ≠ nul)
    (room : t.array.length < arraylen) :
    ¬ (t.mem t.ptr = nul ∨ arraylen ≤ t.array.length) :=
  not_or.mpr ⟨byte, not_le.mpr room⟩

section Char

variable {len arraylen : Nat} {delim : Char}

theorem charFinder :
    Finder (charDelimLoop len delim arraylen) len arraylen .findDelim .start false delim where
  past t beyond := by
    rw [charDelimLoop, if_neg (by omega)]
    exact ⟨_, rfl⟩
  stops t inside done := by
    rw [charDelimLoop, if_pos inside, if_pos done]
  escape t inside state room slash := by
    obtain ⟨mem, ptr, _, quotes, array⟩ := t
    cases state
    rw [charDelimLoop, if_pos inside, if_neg (goes_on (slash ▸ by decide) room)]
    exact if_pos slash
  byte t c s state room holds inside other := by
    obtain ⟨mem, ptr, _, quotes, array⟩ := t
    cases state
    rw [charDelimLoop, if_pos (by omega), if_neg (goes_on (holds.head_ne (cons_ne_nil c s)) room)]
    have counts := quoteCounts_eq holds inside quotes
    have same : (false = true ∨ quotes = true ∨ '\'' ∈ s) ↔ (quotes = true ∨ '\'' ∈ s) :=
      or_iff_right Bool.false_ne_true
    dsimp only at counts holds ⊢
    simp only [holds.1, if_neg other, counts, same]
    by_cases mark : c = '\'' ∧ (quotes = true ∨ '\'' ∈ s)
    · rw [decide_eq_true mark, if_pos mark]
    · rw [decide_eq_false mark, if_neg mark]

theorem charDelimLoop_start {t : Tokenizer CharState} (state : t.state = .start)
    (ready : Ready len t s) (some : s ≠ []) (room : t.array.length < arraylen) :
    charDelimLoop len delim arraylen t =
      charDelimLoop len delim arraylen { t with array := t.array ++ [t.ptr], state := .findDelim } := by
  have ends := ready.ends
  obtain ⟨mem, ptr, _, quotes, array⟩ := t
  cases state
  rw [charDelimLoop, if_pos (by omega), if_neg (goes_on (ready.holds.head_ne some) room)]

theorem charCutter (delim : Char) :
    Cutter (charDelimLoop len delim arraylen) len arraylen .start (findDelim false delim false) where
  stops := charFinder.stops
  last t s state ready some full := by
    have ends := ready.ends
    refine ⟨rfl, { t with array := t.array ++ [t.ptr], state := .findDelim }, ?_, rfl, rfl⟩
    rw [charDelimLoop_start state ready some (by omega)]
    exact charFinder.stops _ (by simp only; omega) (.inr (by simp; omega))
  cuts t s state ready some room := by
    have finds : Finds (charDelimLoop len delim arraylen) .start
        { t with array := t.array ++ [t.ptr], state := .findDelim } t.ptr
        (findDelim false delim false s) :=
      charFinder.finds ready.holds ready.ends (.inl rfl) ready.closed (by simpa using room)
    have cuts := Finds.cutsOff [] id finds ready
      (charDelimLoop_start state ready some (by omega)) rfl rfl
      fun t' rest begins ready' _ => ⟨t', rfl, .inl begins, ready', rfl, le_rfl, rfl⟩
    simpa using cuts

end Char

section Blank

variable {len arraylen : Nat}

theorem blankFinder :
    Finder (blankDelimLoop len arraylen) len arraylen .findDelim .skipEndingSpace true ' ' where
  past t beyond := by
    rw [blankDelimLoop, if_neg (by omega)]
    exact ⟨_, rfl⟩
  stops t inside done := by
    rw [blankDelimLoop, if_pos inside, if_pos done]
  escape t inside state room slash := by
    obtain ⟨mem, ptr, _, quotes, array⟩ := t
    cases state
    rw [blankDelimLoop, if_pos inside, if_neg (goes_on (slash ▸ by decide) room)]
    exact if_pos slash
  byte t c s state room holds inside other := by
    obtain ⟨mem, ptr, _, quotes, array⟩ := t
    cases state
    rw [blankDelimLoop, if_pos (by omega), if_neg (goes_on (holds.head_ne (cons_ne_nil c s)) room)]
    dsimp only at holds ⊢
    simp [holds.1, other]

theorem blankDelimLoop_skips {skip on : BlankState}
    (skips : skip = .skipInitialSpace ∧ on = .findDelim ∨ skip = .skipEndingSpace ∧ on = .start)
    {t : Tokenizer BlankState} (ready : Ready len t s) (state : t.state = skip)
    (room : t.array.length < arraylen) :
    ∃ t', blankDelimLoop len arraylen t = blankDelimLoop len arraylen t' ∧
      (t'.state = on ∨ skipSpaces s = []) ∧ Ready len t' (skipSpaces s) ∧ t'.mem = t.mem ∧
      t'.ptr = t.ptr + (s.takeWhile (· = ' ')).length ∧ t'.array = t.array := by
  have pass : ∀ (t : Tokenizer BlankState) (c : Char) (s : Text), t.state = skip →
      Ready len t (c :: s) → t.array.length < arraylen →
      blankDelimLoop len arraylen t =
        if c = ' ' then blankDelimLoop len arraylen { t with ptr := t.ptr + 1 }
        else blankDelimLoop len arraylen { t with state := on } := by
    intro t c s state ready room
    have ends := ready.ends
    rw [blankDelimLoop, if_pos (by omega),
      if_neg (goes_on (ready.holds.head_ne (cons_ne_nil c s)) room), ready.holds.1]
    obtain ⟨mem, ptr, _, quotes, array⟩ := t
    rcases skips with ⟨rfl, rfl⟩ | ⟨rfl, rfl⟩ <;> cases state <;> rfl
  induction s generalizing t with
  | nil => exact ⟨t, rfl, .inr rfl, ready, rfl, rfl, rfl⟩
  | cons c s ih =>
    have step := pass t c s state ready room
    by_cases blank : c = ' '
    · have next : Ready len { t with ptr := t.ptr + 1 } s := by
        have ends := ready.ends
        rw [length_cons] at ends
        exact ⟨ready.holds.2.2, by simp only; omega, ready.closed⟩
      obtain ⟨t', goes, state', ready', mem, ptr, array⟩ := ih next state room
      rw [if_pos blank] at step
      have skipped : skipSpaces (c :: s) = skipSpaces s :=
        dropWhile_cons_of_pos (by simpa using blank)
      rw [skipped, takeWhile_cons_of_pos (by simpa using blank), length_cons]
      exact ⟨t', step.trans goes, state', ready', mem, by rw [ptr]; simp only; omega, array⟩
    · rw [if_neg blank] at step
      have stays : skipSpaces (c :: s) = c :: s := dropWhile_cons_of_neg (by simpa using blank)
      rw [stays, takeWhile_cons_of_neg (by simpa using blank)]
      exact ⟨_, step, .inl rfl, { ready with }, rfl, rfl, rfl⟩

theorem blankDelimLoop_start {t : Tokenizer BlankState} (state : t.state = .start)
    (ready : Ready len t s) (some : s ≠ []) (room : t.array.length < arraylen) :
    blankDelimLoop len arraylen t =
      blankDelimLoop len arraylen
        { t with array := t.array ++ [t.ptr], state := .skipInitialSpace } := by
  have ends := ready.ends
  obtain ⟨mem, ptr, _, quotes, array⟩ := t
  cases state
  rw [blankDelimLoop, if_pos (by omega), if_neg (goes_on (ready.holds.head_ne some) room)]

theorem blankCutter :
    Cutter (blankDelimLoop len arraylen) len arraylen .start fun ptr =>
      (findDelim true ' ' false (skipSpaces ptr)).map fun found =>
        (ptr.takeWhile (· = ' ') ++ found.1, found.2.map skipSpaces) where
  stops := blankFinder.stops
  last t s state ready some full := by
    have ends := ready.ends
    refine ⟨rfl, { t with array := t.array ++ [t.ptr], state := .skipInitialSpace }, ?_, rfl, rfl⟩
    rw [blankDelimLoop_start state ready some (by omega)]
    exact blankFinder.stops _ (by simp only; omega) (.inr (by simp; omega))
  cuts t s state ready some room := by
    have notFull : t.array.length < arraylen := by omega
    have begins := blankDelimLoop_start state ready some notFull
    have pushed : (t.array ++ [t.ptr]).length < arraylen := by simpa using room
    have begun : Ready len
        { t with array := t.array ++ [t.ptr], state := BlankState.skipInitialSpace } s :=
      { ready with }
    obtain ⟨t', goes, state', ready', mem, ptr, array⟩ :=
      blankDelimLoop_skips (.inl ⟨rfl, rfl⟩) begun rfl pushed
    have finds : Finds (blankDelimLoop len arraylen) .skipEndingSpace t'
        (t.ptr + (s.takeWhile (· = ' ')).length) (findDelim true ' ' false (skipSpaces s)) := by
      have finds' := blankFinder.finds ready'.holds ready'.ends state' ready'.closed
        (by rw [array]; exact pushed)
      rwa [ptr] at finds'
    have settles : ∀ (after : Tokenizer BlankState) (rest : Text), after.state = .skipEndingSpace →
        Ready len after rest → after.array = t.array ++ [t.ptr] →
        ∃ later, blankDelimLoop len arraylen after = blankDelimLoop len arraylen later ∧
          (later.state = .start ∨ skipSpaces rest = []) ∧ Ready len later (skipSpaces rest) ∧
          later.mem = after.mem ∧ after.ptr ≤ later.ptr ∧ later.array = after.array := by
      intro after rest ending readyAfter stored
      obtain ⟨later, moves, stateLater, readyLater, memLater, ptrLater, arrayLater⟩ :=
        blankDelimLoop_skips (.inr ⟨rfl, rfl⟩) readyAfter ending (by rw [stored]; exact pushed)
      exact ⟨later, moves, stateLater, readyLater, memLater, by omega, arrayLater⟩
    have whole := blanks_append s
    have cuts := Finds.cutsOff (s.takeWhile (· = ' ')) skipSpaces finds (by rwa [whole])
      (begins.trans goes) mem array settles
    rwa [whole] at cuts

end Blank

/-! ### The function in place -/

theorem cleanupFrom_nul (clean : nul ∉ s) (q : Bool) (dest : Text) (stop : Nat) :
    cleanupFrom (some nul) s q dest stop = cleanupFrom none s q dest stop := by
  have same : ∀ e : Char, e ≠ nul → escapedChar (some nul) e = escapedChar none e := by
    intro e byte
    have other : ¬ (some nul = some e) := fun equal => byte (some.inj equal).symm
    simp only [escapedChar, other, reduceCtorEq]
  fun_induction cleanupFrom none s q dest stop with
  | case1 q dest stop => rfl
  | case2 e rest q dest stop c escaped ih =>
    simp only [mem_cons, not_or] at clean
    rw [cleanupFrom, same e (Ne.symm clean.2.1), escaped]
    exact ih clean.2.2
  | case3 e rest q dest stop plain ih =>
    simp only [mem_cons, not_or] at clean
    rw [cleanupFrom, same e (Ne.symm clean.2.1), plain]
    exact ih (by simpa using clean.2)
  | case4 c rest q dest stop whole counts ih =>
    simp only [mem_cons, not_or] at clean
    rw [cleanupFrom, if_pos counts]
    · exact ih clean.2
    · exact whole
  | case5 c rest q dest stop whole plain ih =>
    simp only [mem_cons, not_or] at clean
    rw [cleanupFrom, if_neg plain]
    · exact ih clean.2
    · exact whole

theorem separateString_plain (plain : ∀ own c rest, s ≠ '^' :: '^' :: own :: c :: rest)
    (delim : Char) (arraylen : Nat) :
    separateString s delim arraylen = separateAt s delim arraylen := by
  unfold separateString
  split
  next own c rest => exact absurd rfl (plain own c rest)
  next => rfl

theorem ownDelim_spec (holds : Holds mem 0 s) (ends : s.length + 1 = len) (delim : Char) :
    ∃ buf own body, ownDelim len mem 0 delim = .ok (buf, own) ∧ Holds mem buf body ∧
      buf + body.length + 1 = len ∧
      ∀ arraylen, separateString s delim arraylen = separateAt body own arraylen := by
  subst ends
  by_cases headed : ∃ own c rest, s = '^' :: '^' :: own :: c :: rest
  · obtain ⟨own, c, rest, rfl⟩ := headed
    obtain ⟨first, -, second, -, third, some, fourth, more, behind⟩ := holds
    refine ⟨3, own, c :: rest, ?_, ⟨fourth, more, behind⟩, by simp only [length_cons]; omega,
      fun _ => rfl⟩
    simp [ownDelim, load, ok_bind, pure, Except.pure, first, second, third, fourth, some, more]
  -- without a delimiter of its own, the text is read from its beginning
  · have plain : ∀ own c rest, s ≠ '^' :: '^' :: own :: c :: rest :=
      fun own c rest same => headed ⟨own, c, rest, same⟩
    refine ⟨0, delim, s, ?_, holds, by omega, separateString_plain plain delim⟩
    have other : nul ≠ '^' := by decide
    rcases s with _ | ⟨a, _ | ⟨b, _ | ⟨own, _ | ⟨c, rest⟩⟩⟩⟩
    all_goals
      simp only [Holds, Nat.zero_add, Nat.reduceAdd] at holds
      simp [ownDelim, load, ok_bind, pure, Except.pure, holds, other]
    exact fun first second => plain own c rest (by rw [first, second])

theorem cleanupAll_pieces {low : Nat} {array : List Nat} {raw : List Text} {delim : Char}
    (spread : Spread mem low len array raw) :
    ∃ mem' array', cleanupAll len (if delim = nul then none else some delim) mem array =
        .ok (mem', array') ∧
      Spread mem' low len array' (raw.map (cleanupSeparatedString (some delim))) := by
  by_cases zero : delim = nul
  · have real : (none : Option Char) ≠ some nul := nofun
    obtain ⟨mem', array', runs, cleaned, -⟩ := cleanupAll_spec real spread
    refine ⟨mem', array', by rw [if_pos zero]; exact runs, ?_⟩
    have same : raw.map (cleanupSeparatedString (some delim)) =
        raw.map (cleanupSeparatedString none) := by
      refine map_congr_left fun piece member => ?_
      have clean : nul ∉ skipSpaces piece := fun inside =>
        spread.nul_not_mem piece member ((dropWhile_suffix _).subset inside)
      rw [zero, cleanupSeparatedString, cleanupSeparatedString, cleanupFrom_nul clean]
    rwa [same]
  · have real : some delim ≠ some nul := fun equal => zero (some.inj equal)
    obtain ⟨mem', array', runs, cleaned, -⟩ := cleanupAll_spec real spread
    exact ⟨mem', array', by rw [if_neg zero]; exact runs, cleaned⟩

theorem cleaned_pieces {σ : Type} {loop : Tokenizer σ → Except Outside (Tokenizer σ)}
    {t : Tokenizer σ} {cut : Option (List Text)} {clean : Text → Text}
    {cleanup : Memory → List Nat → Except Outside (Memory × List Nat)} (cuts : match cut with
      | none => ∃ outside, loop t = .error outside
      | some raw => ∃ t', loop t = .ok t' ∧ Spread t'.mem 0 len t'.array raw)
    (cleans : ∀ mem array raw, Spread mem 0 len array raw →
      ∃ mem' array', cleanup mem array = .ok (mem', array') ∧ Spread mem' 0 len array' (raw.map clean)) :
    match cut.map (List.map clean) with
    | none => ∃ outside, (loop t >>= fun t' => cleanup t'.mem t'.array) = .error outside
    | some tokens => ∃ mem array, (loop t >>= fun t' => cleanup t'.mem t'.array) = .ok (mem, array) ∧
        Spread mem 0 len array tokens := by
  cases cut with
  | none =>
    obtain ⟨outside, fails⟩ := cuts
    exact ⟨outside, by rw [fails]; rfl⟩
  | some raw =>
    obtain ⟨t', runs, spread⟩ := cuts
    obtain ⟨mem, array, cleaned, spread'⟩ := cleans _ _ _ spread
    exact ⟨mem, array, by rw [runs, ok_bind]; exact cleaned, spread'⟩

/-- **`switch_separate_string` in place** is the function on texts, and runs out of the buffer
where that one does. -/
theorem separateInPlace_spec {text : Text} (holds : Holds mem 0 text) (delim : Char)
    {arraylen : Nat} (room : arraylen ≠ 0) :
    match separateString text delim arraylen with
    | none => ∃ outside, separateInPlace (text.length + 1) mem 0 delim arraylen = .error outside
    | some tokens => ∃ mem' array, separateInPlace (text.length + 1) mem 0 delim arraylen =
        .ok (mem', array) ∧ Spread mem' 0 (text.length + 1) array tokens := by
  obtain ⟨buf, own, body, head, inner, ends, same⟩ := ownDelim_spec holds rfl delim
  have nothing : Spread mem 0 buf [] [] := trivial
  rw [same arraylen, separateAt, separateInPlace, if_neg room, head, ok_bind]
  dsimp only
  by_cases blank : own = ' '
  · have ready : Ready (text.length + 1) (⟨mem, buf, .start, false, []⟩ : Tokenizer BlankState) body :=
      ⟨inner, ends, rfl⟩
    have cut := blankCutter.pieces_spec (.inl rfl) ready (Nat.zero_add arraylen) (Nat.zero_le _) nothing
    rw [if_pos blank, if_pos blank]
    refine cleaned_pieces cut fun mem array raw spread => ?_
    have real : (none : Option Char) ≠ some nul := nofun
    obtain ⟨mem', array', runs, cleaned, -⟩ := cleanupAll_spec real spread
    exact ⟨mem', array', runs, cleaned⟩
  · have ready : Ready (text.length + 1) (⟨mem, buf, .start, false, []⟩ : Tokenizer CharState) body :=
      ⟨inner, ends, rfl⟩
    have cut := (charCutter own).pieces_spec (.inl rfl) ready (Nat.zero_add arraylen) (Nat.zero_le _) nothing
    rw [if_neg blank, if_neg blank]
    exact cleaned_pieces cut fun mem array raw spread => cleanupAll_pieces spread

/-! ### The texts that are overrun -/

def endsEscaping : Text → Bool
  | [] => false
  | ['\\'] => true
  | '\\' :: _ :: rest => endsEscaping rest
  | _ :: rest => endsEscaping rest

/-- The number of delimiters at which a text is cut: not escaped and not between quotation marks.
With `lone` it is a blank, and those behind one, and at the beginning, are skipped. -/
def delimiters (lone : Bool) (delim : Char) : (skip insideQuotes : Bool) → Text → Nat
  | _, _, [] => 0
  | _, _, ['\\'] => 0
  | _, q, '\\' :: _ :: rest => delimiters lone delim false q rest
  | skip, q, c :: rest =>
    if skip = true ∧ c = ' ' then delimiters lone delim skip q rest
    else if c = '\'' ∧ (lone = true ∨ q = true ∨ '\'' ∈ rest) then
      delimiters lone delim false (!q) rest
    else if c = delim ∧ q = false then delimiters lone delim lone false rest + 1
    else delimiters lone delim false q rest

/-- The delimiter and the text behind a `^^` head. -/
def ownText (text : Text) (delim : Char) : Char × Text :=
  match text with
  | '^' :: '^' :: own :: c :: rest => (own, c :: rest)
  | _ => (delim, text)

def Overruns (text : Text) (delim : Char) (arraylen : Nat) : Prop :=
  let (own, body) := ownText text delim
  endsEscaping body = true ∧
    delimiters (own = ' ') own (own = ' ') false body + 1 < arraylen

instance (text : Text) (delim : Char) (arraylen : Nat) : Decidable (Overruns text delim arraylen) :=
  inferInstanceAs (Decidable (_ ∧ _))

section Overrun

variable {lone : Bool} {delim : Char}

theorem endsEscaping_cons {c : Char} (other : c ≠ '\\') (s : Text) :
    endsEscaping (c :: s) = endsEscaping s := by
  rw [endsEscaping]
  · exact fun slash _ => other slash
  · exact fun _ _ slash _ => other slash

theorem endsEscaping_skipSpaces (s : Text) : endsEscaping (skipSpaces s) = endsEscaping s := by
  induction s with
  | nil => rfl
  | cons c s ih =>
    by_cases blank : c = ' '
    · rw [skipSpaces, dropWhile_cons_of_pos (by simpa using blank), ← skipSpaces, ih,
        endsEscaping_cons (by rw [blank]; decide)]
    · rw [skipSpaces, dropWhile_cons_of_neg (by simpa using blank)]

theorem delimiters_cons {c : Char} (other : c ≠ '\\') (skip q : Bool) (s : Text) :
    delimiters lone delim skip q (c :: s) =
      if skip = true ∧ c = ' ' then delimiters lone delim skip q s
      else if c = '\'' ∧ (lone = true ∨ q = true ∨ '\'' ∈ s) then
        delimiters lone delim false (!q) s
      else if c = delim ∧ q = false then delimiters lone delim lone false s + 1
      else delimiters lone delim false q s := by
  rw [delimiters]
  · exact fun slash _ => other slash
  · exact fun _ _ slash _ => other slash

theorem delimiters_skip (q : Bool) (s : Text) :
    delimiters lone delim true q s = delimiters lone delim false q (skipSpaces s) := by
  induction s with
  | nil => rfl
  | cons c s ih =>
    by_cases blank : c = ' '
    · rw [skipSpaces, dropWhile_cons_of_pos (by simpa using blank), ← skipSpaces, ← ih,
        delimiters_cons (by rw [blank]; decide), if_pos ⟨rfl, blank⟩]
    · rw [skipSpaces, dropWhile_cons_of_neg (by simpa using blank)]
      by_cases slash : c = '\\'
      · subst slash
        cases s with
        | nil => rfl
        | cons e s => rfl
      · have never : ¬ (false = true ∧ c = ' ') := fun both => Bool.false_ne_true both.1
        rw [delimiters_cons slash, delimiters_cons slash, if_neg (blank ·.2), if_neg never]

/-- What a search for a delimiter finds, by the end of the text and the number of its delimiters,
`count` of them behind one. -/
def Agrees (count : Text → Nat) (ends : Bool) (n : Nat) : Option (Text × Option Text) → Prop
  | none => ends = true ∧ n = 0
  | some (_, none) => ends = false
  | some (_, some rest) => ends = endsEscaping rest ∧ n = count rest + 1

theorem Agrees.map {count : Text → Nat} {ends : Bool} {n : Nat}
    {found : Option (Text × Option Text)} (agrees : Agrees count ends n found)
    (front : Text → Text) : Agrees count ends n (found.map fun found => (front found.1, found.2)) := by
  match found, agrees with
  | none, agrees => exact agrees
  | some (_, none), agrees => exact agrees
  | some (_, some rest), agrees => exact agrees

theorem findDelim_agrees (q : Bool) (s : Text) :
    Agrees (delimiters lone delim lone false) (endsEscaping s) (delimiters lone delim false q s)
      (findDelim lone delim q s) := by
  have never : ∀ c : Char, ¬ (false = true ∧ c = ' ') := fun c both => Bool.false_ne_true both.1
  fun_induction findDelim lone delim q s with
  | case1 q => exact rfl
  | case2 q => exact ⟨rfl, rfl⟩
  | case3 q c rest ih =>
    rw [endsEscaping, delimiters]
    exact ih.map ('\\' :: c :: ·)
  | case4 q c rest alone whole counts ih =>
    have other := ne_backslash alone whole
    rw [endsEscaping_cons other, delimiters_cons other, if_neg (never c), if_pos counts]
    exact ih.map _
  | case5 q c rest alone whole plain same =>
    have other := ne_backslash alone whole
    rw [endsEscaping_cons other, delimiters_cons other, if_neg (never c), if_neg plain, if_pos same]
    exact ⟨rfl, rfl⟩
  | case6 q c rest alone whole plain different ih =>
    have other := ne_backslash alone whole
    rw [endsEscaping_cons other, delimiters_cons other, if_neg (never c), if_neg plain,
      if_neg different]
    exact ih.map _

theorem blankNext_agrees (s : Text) :
    Agrees (delimiters true ' ' true false) (endsEscaping s) (delimiters true ' ' true false s)
      ((findDelim true ' ' false (skipSpaces s)).map fun found =>
        (s.takeWhile (· = ' ') ++ found.1, found.2.map skipSpaces)) := by
  have inner : Agrees (delimiters true ' ' true false) (endsEscaping (skipSpaces s)) _ _ :=
    findDelim_agrees false (skipSpaces s)
  rw [endsEscaping_skipSpaces, ← delimiters_skip] at inner
  match findDelim true ' ' false (skipSpaces s), inner with
  | none, inner => exact inner
  | some (_, none), inner => exact inner
  | some (_, some rest), inner =>
    have again : skipSpaces (skipSpaces rest) = skipSpaces rest := dropWhile_idempotent _ _
    refine ⟨?_, ?_⟩
    · rw [endsEscaping_skipSpaces]
      exact inner.1
    · rw [delimiters_skip false (skipSpaces rest), again, ← delimiters_skip]
      exact inner.2

theorem pieces_none_iff {next : Text → Option (Text × Option Text)} {count : Text → Nat}
    (agrees : ∀ s, Agrees count (endsEscaping s) (count s) (next s)) (arraylen : Nat) (s : Text) :
    pieces next arraylen s = none ↔ endsEscaping s = true ∧ count s + 1 < arraylen := by
  fun_induction pieces next arraylen s with
  | case1 s => simp
  | case2 arraylen => simp [endsEscaping]
  | case3 s some => simp
  | case4 room s some nothing =>
    have found := agrees s
    rw [nothing] at found
    simp [found.1, found.2]
  | case5 room s some piece found =>
    have found' := agrees s
    rw [found] at found'
    simp [show endsEscaping s = false from found']
  | case6 room s some piece rest found ih =>
    have found' := agrees s
    rw [found] at found'
    rw [map_eq_none_iff, ih, found'.1, found'.2]
    simp

theorem separateString_none_iff (text : Text) (delim : Char) (arraylen : Nat) :
    separateString text delim arraylen = none ↔ Overruns text delim arraylen := by
  have own : separateString text delim arraylen =
      separateAt (ownText text delim).2 (ownText text delim).1 arraylen := by
    unfold ownText
    split
    next => rfl
    next plain => exact separateString_plain plain delim arraylen
  rw [own, Overruns]
  obtain ⟨own, body⟩ := ownText text delim
  dsimp only
  unfold separateAt
  by_cases blank : own = ' '
  · rw [if_pos blank, map_eq_none_iff, decide_eq_true blank]
    exact pieces_none_iff (fun s => blank ▸ blankNext_agrees s) arraylen body
  · rw [if_neg blank, map_eq_none_iff, decide_eq_false blank]
    exact pieces_none_iff (fun s => findDelim_agrees false s) arraylen body

end Overrun

/-- Only bytes of the string and its NUL are read and written, and at most `arraylen` pointers
stored, all into the string. -/
def StaysInside (mem : Memory) (text : Text) (delim : Char) (arraylen : Nat) : Prop :=
  ∃ mem' array, separateInPlace (text.length + 1) mem 0 delim arraylen = .ok (mem', array) ∧
    array.length ≤ arraylen ∧ ∀ p ∈ array, p ≤ text.length

/-- **`switch_separate_string` stays inside the string exactly when its text is not one that it
overruns.** -/
theorem separate_inside_iff {mem : Memory} {text : Text} {delim : Char} {arraylen : Nat}
    (holds : Holds mem 0 text) (room : 1 ≤ arraylen) :
    StaysInside mem text delim arraylen ↔ ¬ Overruns text delim arraylen := by
  have spec := separateInPlace_spec holds delim (Nat.one_le_iff_ne_zero.mp room)
  rw [← separateString_none_iff]
  cases result : separateString text delim arraylen with
  | none =>
    rw [result] at spec
    obtain ⟨outside, fails⟩ := spec
    refine ⟨?_, fun inside => absurd rfl inside⟩
    rintro ⟨mem', array, returns, -⟩
    rw [fails] at returns
    cases returns
  | some tokens =>
    rw [result] at spec
    obtain ⟨mem', array, returns, spread⟩ := spec
    refine ⟨fun _ => nofun, fun _ => ⟨mem', array, returns, ?_, fun p member => ?_⟩⟩
    · rw [spread.length_eq]
      exact separateString_length result
    · exact Nat.le_of_lt_succ (spread.below p member)

/-- The instance of `a,'b,c'`. -/
theorem separate_inside_quoted : Holds (ofText "a,'b,c'") 0 "a,'b,c'" ∧ 1 ≤ 3 ∧
    StaysInside (ofText "a,'b,c'") "a,'b,c'" ',' 3 := by
  refine ⟨by decide, by decide, (separate_inside_iff (by decide) (by decide)).mpr ?_⟩
  rw [← separateString_none_iff]
  decide +kernel

/-- **A backslash at the end is stepped over together with the NUL behind it.** -/
theorem trailing_backslash_overruns : Holds (ofText ['a', '\\']) 0 ['a', '\\'] ∧
    ¬ StaysInside (ofText ['a', '\\']) ['a', '\\'] ',' 2 := by
  have holds : Holds (ofText ['a', '\\']) 0 ['a', '\\'] := by decide
  refine ⟨holds, ?_⟩
  rintro ⟨mem, array, returns, -⟩
  obtain ⟨outside, fails⟩ : ∃ outside,
      separateInPlace 3 (ofText ['a', '\\']) 0 ',' 2 = .error outside := by
    have spec := separateInPlace_spec holds ',' (show 2 ≠ 0 by decide)
    rw [show separateString ['a', '\\'] ',' 2 = none by decide] at spec
    exact spec
  have both := fails.symm.trans returns
  cases both

end FreeSwitch
