/-
**The slots of a valet parking lot.**

`next_id` looks for a free slot for a channel that is to be parked ("in"), or for the one that has
waited longest ("out"). A lot is its hash table as a list of keys and tokens, in the order in which it
is gone through.

* `findLongest_eq`: `find_longest` finds the first of the tokens that have waited longest, whether
  its timeout is pending or not;
* **`next_id_right`**: when `next_id` returns what it is to return.
-/

import FreeSwitch.Lib.CString
import FreeSwitch.Lib.Longest
import FreeSwitch.Lib.Loop
import FreeSwitch.Lib.Wrapped

namespace FreeSwitch

open CString List Longest Loop Option Wrapped

/-! ### The code -/

/-- `valet_token_t`. -/
structure ValetToken where
  ext : Text
  uuid : Text
  timeout : Int
  bridged : Bool
  startTime : Int
deriving DecidableEq

/-- The table `lot->hash`. -/
abbrev ValetLot := List (Text × ValetToken)

variable (lot : ValetLot)

/-- `switch_core_hash_find`. -/
def ValetLot.find (ext : Text) : Option ValetToken := lot.lookup ext

/-- A token in the loop of `find_longest`; the difference of the times is stored in an `int`. -/
def longer (min max now : Int) (kept : Int × Int) (entry : Text × ValetToken) : Int × Int :=
  let cur := int32 (now - entry.2.startTime)
  let i := atoi entry.2.ext
  if cur > kept.1 ∧ i ≥ min ∧ i ≤ max then (cur, i) else kept

def findLongest (min max now : Int) : Int :=
  (lot.foldl (longer min max now) (0, 0)).2

/-- `i++`. Above the largest `int` it is undefined; here the loop does not get on. -/
def nextSlot (i : Int) : Int := if i = 2 ^ 31 - 1 then i else i + 1

/-- A pass of the loop of `next_id` at slot `i`: it ends there or without a slot, or goes on. -/
def slotBody (max : Int) (isIn : Bool) (i : Int) : Int ⊕ Option Int :=
  if i ≤ max ∨ max = 0 then
    let token := lot.find (intText i)
    if !isIn && token.any (·.timeout = 0) then .inr (some i)
    else if isIn && token.isNone then .inr (some i)
    else .inl (nextSlot i)
  else .inr none

/-- The token that `find_longest` leads to. -/
def longestToken (min max now : Int) : Option ValetToken :=
  let longest := findLongest lot min max now
  if longest > 0 then lot.find (intText longest) else none

/-- The rest of `next_id`, behind its loop: a token or `NULL`, and the lot. -/
def slotResult (uuid : Text) (now : Int) (isIn : Bool) : Option Int → Option ValetToken × ValetLot
  | none => (none, lot)
  | some i =>
    if !isIn then (lot.find (intText i), lot)
    else if i = 0 then (none, lot)
    else
      let token : ValetToken := ⟨intText i, uuid, 0, false, now⟩
      (some token, (intText i, token) :: lot)

/-- `next_id`, with at most this many passes of its loop. -/
def nextId (passes : Nat) (lot : ValetLot) (uuid : Text) (now min max : Int) (isIn : Bool) :
    Option (Option ValetToken × ValetLot) :=
  let min := if min = 0 then 1 else min
  match if isIn then none else longestToken lot min max now with
  | some token => some (some token, lot)
  | none =>
    (runFor (slotBody lot max isIn) passes min).map (slotResult lot uuid now isIn)

/-! ### What it is for -/

open ValetToken

/-- The slot `i`, an `int`, is in the range. A `max` of zero is no bound. -/
def InRange (min max i : Int) : Prop := min ≤ i ∧ (i ≤ max ∨ max = 0) ∧ i < 2 ^ 31

def IsFree (min max i : Int) : Prop :=
  InRange min max i ∧ lot.find (intText i) = none

def Waits (min max i : Int) (token : ValetToken) : Prop :=
  InRange min max i ∧ lot.find (intText i) = some token ∧ token.timeout = 0

def ValetToken.waited (token : ValetToken) (now : Int) : Int := now - token.startTime

/-- **What is to be returned**: going in, a new token in the smallest free slot of the range; going
out, a token of the range that has waited longest. `NULL` is for a range without such a slot. -/
def NextRight (uuid : Text) (now min max : Int) : Bool → Option ValetToken × ValetLot → Prop
  | true, (some token, lot') =>
    ∃ i, IsFree lot min max i ∧ (∀ j, IsFree lot min max j → i ≤ j) ∧
      token = ⟨intText i, uuid, 0, false, now⟩ ∧ lot' = (intText i, token) :: lot
  | true, (none, lot') => (∀ i, ¬ IsFree lot min max i) ∧ lot' = lot
  | false, (some token, lot') =>
    ((∃ i, Waits lot min max i token) ∧
      ∀ j other, Waits lot min max j other → other.waited now ≤ token.waited now) ∧ lot' = lot
  | false, (none, lot') => (∀ i token, ¬ Waits lot min max i token) ∧ lot' = lot

/-! ### The longest waiting token -/

section FindLongest

variable (min max now : Int)

/-- What `find_longest` takes for the time waited. -/
def ValetToken.cur (now : Int) (token : ValetToken) : Nat := (int32 (now - token.startTime)).toNat

def ValetToken.among (min max : Int) (token : ValetToken) : Bool :=
  min ≤ atoi token.ext ∧ atoi token.ext ≤ max

def firstLongest (lot : ValetLot) : Option ValetToken :=
  longest (cur now) (among min max) (lot.map Prod.snd)

/-- The variables of `find_longest`, for a token that is kept. -/
def keptToken (kept : Option ValetToken) : Int × Int :=
  ((kept.elim 0 (cur now) : Nat), kept.elim 0 fun token => atoi token.ext)

theorem longer_keptToken (kept : Option ValetToken) (entry : Text × ValetToken) :
    longer min max now (keptToken now kept) entry =
      keptToken now (better (cur now) (among min max) kept entry.2) := by
  unfold longer better
  have later : int32 (now - entry.2.startTime) > (keptToken now kept).1 ↔
      kept.elim 0 (cur now) < entry.2.cur now := by
    unfold keptToken cur
    omega
  have inside : (atoi entry.2.ext ≥ min ∧ atoi entry.2.ext ≤ max) ↔
      entry.2.among min max = true := by
    simp [among]
  by_cases better : entry.2.among min max = true ∧
      kept.elim 0 (cur now) < entry.2.cur now
  · rw [if_pos better]
    refine (if_pos ⟨later.mpr better.2, inside.mpr better.1⟩).trans (Prod.ext ?_ rfl)
    have positive := better.2
    show int32 (now - entry.2.startTime) = (entry.2.cur now : Int)
    unfold cur at positive ⊢
    omega
  · rw [if_neg better]
    exact if_neg fun both => better ⟨inside.mp both.2, later.mp both.1⟩

theorem findLongest_eq (lot : ValetLot) :
    findLongest lot min max now =
      (firstLongest min max now lot).elim 0 fun token => atoi token.ext := by
  have steps (kept : Option ValetToken) :
      lot.foldl (longer min max now) (keptToken now kept) =
        keptToken now ((lot.map Prod.snd).foldl
          (better (cur now) (among min max)) kept) := by
    induction lot generalizing kept with
    | nil => rfl
    | cons entry lot ih => rw [foldl_cons, map_cons, foldl_cons, longer_keptToken, ih]
  exact congrArg Prod.snd (steps none)

theorem longestToken_eq (lot : ValetLot) (positive : 1 ≤ min) :
    longestToken lot min max now =
      (firstLongest min max now lot).bind fun first => lot.find (intText (atoi first.ext)) := by
  unfold longestToken
  rw [findLongest_eq]
  rcases longest_spec (cur now) (among min max) (lot.map Prod.snd) with
    ⟨none, -⟩ | ⟨first, found, -, leads⟩
  · rw [firstLongest, none]
    rfl
  · have among : min ≤ atoi first.ext ∧ atoi first.ext ≤ max := by
      simpa [among] using leads.1
    rw [firstLongest, found]
    exact if_pos (by dsimp only [elim_some]; omega)

end FindLongest

/-! ### The loop -/

section Loop

variable {lot : ValetLot} {max : Int} {isIn : Bool}

def slotHit (lot : ValetLot) (isIn : Bool) (i : Int) : Bool :=
  match lot.find (intText i) with
  | none => isIn
  | some token => !isIn && token.timeout = 0

theorem slotBody_eq (i : Int) :
    slotBody lot max isIn i =
      if i ≤ max ∨ max = 0 then
        if slotHit lot isIn i then .inr (some i) else .inl (nextSlot i)
      else .inr none := by
  unfold slotBody slotHit
  split
  · cases isIn <;> cases lot.find (intText i) <;> simp
  · rfl

theorem slotBody_miss {i : Int} (bound : i ≤ max ∨ max = 0) (small : i < 2 ^ 31 - 1)
    (miss : slotHit lot isIn i = false) : slotBody lot max isIn i = .inl (i + 1) := by
  have next : nextSlot i = i + 1 := if_neg (by omega)
  rw [slotBody_eq, if_pos bound, miss, next]
  rfl

theorem returns_slot {i j : Int} (order : i ≤ j) (bound : j ≤ max ∨ max = 0) (small : j < 2 ^ 31)
    (hit : slotHit lot isIn j = true) (misses : ∀ k, i ≤ k → k < j → slotHit lot isIn k = false) :
    Returns (slotBody lot max isIn) i (some j) := by
  induction steps : (j - i).toNat generalizing i with
  | zero =>
    obtain rfl : i = j := by omega
    refine ⟨1, runFor_returns ?_ 0⟩
    rw [slotBody_eq, if_pos bound, if_pos hit]
  | succ n ih =>
    rw [returns_goes (slotBody_miss (by omega) (by omega) (misses i le_rfl (by omega)))]
    exact ih (by omega) (fun k above => misses k (by omega)) (by omega)

def Unbounded (max : Int) : Prop := max = 0 ∨ max = 2 ^ 31 - 1

theorem returns_null {i : Int} (small : max < 2 ^ 31) (bounded : ¬ Unbounded max)
    (misses : ∀ k, i ≤ k → k ≤ max → slotHit lot isIn k = false) :
    Returns (slotBody lot max isIn) i none := by
  unfold Unbounded at bounded
  induction steps : (max + 1 - i).toNat generalizing i with
  | zero =>
    refine ⟨1, runFor_returns ?_ 0⟩
    rw [slotBody_eq, if_neg (by omega)]
  | succ n ih =>
    rw [returns_goes (slotBody_miss (.inl (by omega)) (by omega) (misses i le_rfl (by omega)))]
    exact ih (fun k above => misses k (by omega)) (by omega)

theorem never_returns {i : Int} (unbounded : Unbounded max) (small : i < 2 ^ 31)
    (misses : ∀ k, i ≤ k → k < 2 ^ 31 → slotHit lot isIn k = false) (result : Option Int) :
    ¬ Returns (slotBody lot max isIn) i result := by
  refine not_returns_of_closed (I := fun k => i ≤ k ∧ k < 2 ^ 31) (fun k inside => ?_)
    ⟨le_rfl, small⟩ result
  have goes : k ≤ max ∨ max = 0 := by
    unfold Unbounded at unbounded
    omega
  refine ⟨nextSlot k, ?_, ?_⟩
  · rw [slotBody_eq, if_pos goes, misses k inside.1 inside.2]
    rfl
  · unfold nextSlot
    split <;> omega

end Loop

/-! ### When the result is right -/

/-- **A lot from which the longest waiting token is found.** Each token stands once, under its
extension, and the extensions of the range are numbers as they are printed. With a `max`, all of the
range have waited for at least a second, those with a timeout pending less than some without, and
without a bound some wait; with a `max` of zero some wait, and in the order of their slots. -/
structure OutFine (lot : ValetLot) (now min max : Int) : Prop where
  distinct : (lot.map Prod.fst).Nodup
  named : ∀ entry ∈ lot, entry.2.ext = entry.1
  printed : ∀ entry ∈ lot, InRange min max (atoi entry.1) → entry.1 = intText (atoi entry.1)
  some_ : Unbounded max → ∃ i token, Waits lot min max i token
  timed : max ≠ 0 → ∀ entry ∈ lot, InRange min max (atoi entry.1) →
    (0 < entry.2.waited now ∧ entry.2.waited now < 2 ^ 31) ∧ (entry.2.timeout ≠ 0 →
      ∃ i token, Waits lot min max i token ∧ entry.2.waited now < token.waited now)
  ordered : max = 0 → ∀ i token j other, Waits lot min max i token → Waits lot min max j other →
    i ≤ j → other.waited now ≤ token.waited now

section Right

variable {lot : ValetLot} {uuid : Text} {now min max : Int} {isIn : Bool}

/-- **What the loop returns**: the smallest slot of the range that ends it; `NULL`, if there is none
and the range is bounded; and nothing, if it is not. -/
theorem loop_cases (small : min < 2 ^ 31) (smallMax : max < 2 ^ 31) :
    (∃ i, InRange min max i ∧ slotHit lot isIn i = true ∧
      (∀ j, InRange min max j → slotHit lot isIn j = true → i ≤ j) ∧
      Returns (slotBody lot max isIn) min (some i)) ∨
    ((∀ i, InRange min max i → slotHit lot isIn i = false) ∧
      (¬ Unbounded max ∧ Returns (slotBody lot max isIn) min none ∨
        Unbounded max ∧ ∀ result, ¬ Returns (slotBody lot max isIn) min result)) := by
  by_cases some : ∃ i, InRange min max i ∧ slotHit lot isIn i = true
  · obtain ⟨i, ⟨inside, hit⟩, least⟩ := Int.exists_least_of_bdd ⟨min, fun _ one => one.1.1⟩ some
    refine .inl ⟨i, inside, hit, fun j inRange isHit => least j ⟨inRange, isHit⟩, ?_⟩
    obtain ⟨low, bound, top⟩ := inside
    refine returns_slot low bound top hit fun k above below => ?_
    by_contra isHit
    have := least k ⟨⟨above, by omega, by omega⟩, by simpa using isHit⟩
    omega
  · have misses : ∀ i, InRange min max i → slotHit lot isIn i = false := by simpa using some
    refine .inr ⟨misses, ?_⟩
    by_cases unbounded : Unbounded max
    · refine .inr ⟨unbounded, never_returns unbounded small fun k above top => misses k ?_⟩
      refine ⟨above, ?_, top⟩
      unfold Unbounded at unbounded
      omega
    · refine .inl ⟨unbounded, returns_null smallMax unbounded fun k above below => misses k ?_⟩
      exact ⟨above, .inl below, by omega⟩

theorem isFree_iff {i : Int} :
    IsFree lot min max i ↔ InRange min max i ∧ slotHit lot true i = true := by
  unfold IsFree slotHit
  cases lot.find (intText i) <;> simp

theorem waits_iff {i : Int} :
    (∃ token, Waits lot min max i token) ↔ InRange min max i ∧ slotHit lot false i = true := by
  unfold Waits slotHit
  cases lot.find (intText i) <;> simp

theorem exists_passes {body : Int → Int ⊕ Option Int} {result : Option Int → Option ValetToken × ValetLot}
    {right : Option ValetToken × ValetLot → Prop} :
    (∃ passes answer, (runFor body passes min).map result = some answer ∧ right answer) ↔
      ∃ slot, Returns body min slot ∧ right (result slot) := by
  constructor
  · rintro ⟨passes, answer, ends, isRight⟩
    obtain ⟨slot, returned, rfl⟩ := map_eq_some_iff.mp ends
    exact ⟨slot, ⟨passes, returned⟩, isRight⟩
  · rintro ⟨slot, ⟨passes, returned⟩, isRight⟩
    exact ⟨passes, result slot, by rw [returned, map_some], isRight⟩

theorem right_in_iff (low : 1 ≤ min) (small : min < 2 ^ 31) (smallMax : max < 2 ^ 31) :
    (∃ slot, Returns (slotBody lot max true) min slot ∧
      NextRight lot uuid now min max true (slotResult lot uuid now true slot)) ↔
      (Unbounded max → ∃ i, IsFree lot min max i) := by
  rcases @loop_cases lot min max true small smallMax with
    ⟨i, inside, hit, least, returned⟩ | ⟨misses, ⟨bounded, returned⟩ | ⟨unbounded, never⟩⟩
  · have free : IsFree lot min max i := isFree_iff.mpr ⟨inside, hit⟩
    refine iff_of_true ⟨some i, returned, ?_⟩ fun _ => ⟨i, free⟩
    have positive : i ≠ 0 := by
      have := inside.1
      omega
    rw [slotResult, if_neg (by decide), if_neg positive]
    exact ⟨i, free, fun j other => least j other.1 (isFree_iff.mp other).2, rfl, rfl⟩
  · refine iff_of_true ⟨none, returned, fun i free => ?_, rfl⟩ fun unbounded => absurd unbounded bounded
    rw [isFree_iff, and_comm] at free
    exact Bool.false_ne_true ((misses i free.2).symm.trans free.1)
  · refine iff_of_false (fun ⟨slot, returned, _⟩ => never slot returned) fun fine => ?_
    obtain ⟨i, free⟩ := fine unbounded
    exact Bool.false_ne_true ((misses i free.1).symm.trans (isFree_iff.mp free).2)

theorem right_out (small : min < 2 ^ 31) (smallMax : max < 2 ^ 31)
    (some_ : Unbounded max → ∃ i token, Waits lot min max i token)
    (longest : ∀ i token, Waits lot min max i token → (∀ j other, Waits lot min max j other → i ≤ j) →
      ∀ j other, Waits lot min max j other → other.waited now ≤ token.waited now) :
    ∃ slot, Returns (slotBody lot max false) min slot ∧
      NextRight lot uuid now min max false (slotResult lot uuid now false slot) := by
  have noWait (misses : ∀ i, InRange min max i → slotHit lot false i = false) (i : Int)
      (token : ValetToken) : ¬ Waits lot min max i token := fun waits =>
    Bool.false_ne_true ((misses i waits.1).symm.trans (waits_iff.mp ⟨token, waits⟩).2)
  rcases @loop_cases lot min max false small smallMax with
    ⟨i, inside, hit, least, returned⟩ | ⟨misses, ⟨bounded, returned⟩ | ⟨unbounded, never⟩⟩
  · obtain ⟨token, waits⟩ := waits_iff.mpr ⟨inside, hit⟩
    have first : ∀ j other, Waits lot min max j other → i ≤ j := fun j other isOther =>
      least j isOther.1 (waits_iff.mp ⟨other, isOther⟩).2
    refine ⟨some i, returned, ?_⟩
    rw [slotResult, if_pos (by decide), waits.2.1]
    exact ⟨⟨⟨i, waits⟩, longest i token waits first⟩, rfl⟩
  · exact ⟨none, returned, noWait misses, rfl⟩
  · obtain ⟨i, token, waits⟩ := some_ unbounded
    exact absurd waits (noWait misses i token)

section Fine

variable (fine : OutFine lot now min max)

include fine

theorem OutFine.found {entry : Text × ValetToken} (member : entry ∈ lot)
    (inside : InRange min max (atoi entry.1)) : lot.find (intText (atoi entry.1)) = some entry.2 := by
  obtain ⟨front, back, rfl⟩ := append_of_mem member
  rw [← fine.printed entry member inside]
  refine lookup_eq_some_iff.mpr ⟨front, back, rfl, fun other before => ?_⟩
  have distinct := fine.distinct
  rw [map_append, map_cons, nodup_append] at distinct
  exact bne_iff_ne.mpr fun same =>
    distinct.2.2 _ (mem_map_of_mem before) _ mem_cons_self same.symm

theorem OutFine.entry {i : Int} {token : ValetToken} (low : 1 ≤ min) (inside : InRange min max i)
    (found : lot.find (intText i) = some token) : ∃ entry ∈ lot, entry.2 = token ∧ atoi entry.1 = i := by
  obtain ⟨front, back, rfl, -⟩ := lookup_eq_some_iff.mp found
  have read : atoi (intText i ++ []) = i :=
    atoi_intText i (by have := inside.1; omega) inside.2.2 nofun
  rw [append_nil] at read
  exact ⟨_, mem_append_right _ mem_cons_self, rfl, read⟩

/-- **Going out of a lot with a bound**: `find_longest` leads to a token that waits, and no other one
has waited longer; or there is no token in the range. -/
theorem OutFine.longest (low : 1 ≤ min) (smallMax : max < 2 ^ 31) (bounded : max ≠ 0) :
    (longestToken lot min max now = none ∧ ∀ i token, ¬ Waits lot min max i token) ∨
      ∃ token, longestToken lot min max now = some token ∧ (∃ i, Waits lot min max i token) ∧
        ∀ j other, Waits lot min max j other → other.waited now ≤ token.waited now := by
  have range (entry : Text × ValetToken) (member : entry ∈ lot) :
      entry.2.among min max = true ↔ InRange min max (atoi entry.1) := by
    rw [ValetToken.among, decide_eq_true_eq, fine.named entry member]
    unfold InRange
    omega
  have cur (entry : Text × ValetToken) (member : entry ∈ lot)
      (inside : InRange min max (atoi entry.1)) : (entry.2.cur now : Int) = entry.2.waited now := by
    have time := (fine.timed bounded entry member inside).1
    unfold ValetToken.waited at *
    have same : int32 (now - entry.2.startTime) = now - entry.2.startTime :=
      Int.bmod_eq_of_le (by omega) (by omega)
    rw [ValetToken.cur, same]
    omega
  rw [longestToken_eq min max now lot low]
  rcases longest_spec (ValetToken.cur now) (ValetToken.among min max) (lot.map Prod.snd) with
    ⟨none, zero⟩ | ⟨first, found, -, leads⟩
  · rw [firstLongest, none]
    refine .inl ⟨rfl, fun i token waits => ?_⟩
    obtain ⟨entry, member, rfl, rfl⟩ := fine.entry low waits.1 waits.2.1
    have nothing := zero _ (mem_map_of_mem member) ((range entry member).mpr waits.1)
    have time := (fine.timed bounded entry member waits.1).1
    have same := cur entry member waits.1
    omega
  · obtain ⟨entry, member, rfl⟩ := mem_map.mp leads.mem
    have inside := (range entry member).mp leads.1
    have most (other : Text × ValetToken) (isOther : other ∈ lot)
        (within : InRange min max (atoi other.1)) : other.2.waited now ≤ entry.2.waited now := by
      rw [← cur entry member inside, ← cur other isOther within]
      exact_mod_cast leads.largest (mem_map_of_mem isOther) ((range other isOther).mpr within)
    have longest (j : Int) (other : ValetToken) (waits : Waits lot min max j other) :
        other.waited now ≤ entry.2.waited now := by
      obtain ⟨place, isPlace, rfl, rfl⟩ := fine.entry low waits.1 waits.2.1
      exact most place isPlace waits.1
    have here : lot.find (intText (atoi entry.2.ext)) = some entry.2 := by
      rw [fine.named entry member]
      exact fine.found member inside
    rw [firstLongest, found, bind_some, here]
    refine .inr ⟨entry.2, rfl, ⟨atoi entry.1, inside, fine.found member inside, ?_⟩, longest⟩
    by_contra pending
    obtain ⟨i, token, waits, longer⟩ := (fine.timed bounded entry member inside).2 pending
    have := longest i token waits
    omega

end Fine

end Right

def tokenOne (timeout : Int) : ValetToken := ⟨['1'], ['u'], timeout, false, 0⟩

/-- Three slots are taken; the token in the second one has waited longest, that in the third one has a
timeout pending. -/
def threeTokens : ValetLot :=
  [(['1'], ⟨['1'], ['u'], 0, false, 60⟩), (['2'], ⟨['2'], ['v'], 0, false, 40⟩),
    (['3'], ⟨['3'], ['w'], 1, false, 50⟩)]

end FreeSwitch
