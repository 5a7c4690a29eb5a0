/-
**Longest match.**

A scan that keeps the largest hit so far, and replaces it only by a larger one, ends with the first
of the largest hits; an element of size 0 it never keeps.

* `longest_spec`: what a scan keeps, through `Leads`;
* `Leads.unique`, `exists_leads`: where there is a hit, exactly one element leads.

The hits are subnets in the second half: `and_highBits_eq_iff` reads the comparison under a mask as
one of the leading bits, and two subnets of one length that share an address are the same
(`Subnet.same_of_contains`).
-/

import Mathlib

namespace Longest

open List

section Scan

variable {α : Type} (size : α → Nat) (hit : α → Bool)

def better (kept : Option α) (x : α) : Option α :=
  if hit x = true ∧ kept.elim 0 size < size x then some x else kept

def longest (xs : List α) : Option α := xs.foldl (better size hit) none

def Leads (xs : List α) (x : α) : Prop :=
  hit x = true ∧ ∃ before after, xs = before ++ x :: after ∧
    (∀ y ∈ before, hit y = true → size y < size x) ∧ ∀ y ∈ after, hit y = true → size y ≤ size x

variable {size hit}

variable {xs : List α} {x y : α}

theorem Leads.mem (leads : Leads size hit xs x) : x ∈ xs := by
  obtain ⟨-, before, after, rfl, -, -⟩ := leads
  simp

theorem Leads.largest (leads : Leads size hit xs x) (member : y ∈ xs) (hits : hit y = true) :
    size y ≤ size x := by
  obtain ⟨-, before, after, rfl, smaller, notLarger⟩ := leads
  rcases mem_append.mp member with early | late
  · exact (smaller y early hits).le
  · rcases mem_cons.mp late with rfl | late
    · exact le_rfl
    · exact notLarger y late hits

theorem Leads.snoc (leads : Leads size hit xs x) (notLarger : hit y = true → size y ≤ size x) :
    Leads size hit (xs ++ [y]) x := by
  obtain ⟨hits, before, after, rfl, smaller, behind⟩ := leads
  refine ⟨hits, before, after ++ [y], by simp, smaller, fun z member => ?_⟩
  rcases mem_append.mp member with old | new
  · exact behind z old
  · rw [mem_singleton.mp new]
    exact notLarger

variable (size hit) in
/-- **What a scan keeps**: the leading hit, unless all hits have size 0. -/
theorem longest_spec (xs : List α) :
    (longest size hit xs = none ∧ ∀ y ∈ xs, hit y = true → size y = 0) ∨
      ∃ x, longest size hit xs = some x ∧ 0 < size x ∧ Leads size hit xs x := by
  induction xs using List.reverseRecOn with
  | nil => exact .inl ⟨rfl, nofun⟩
  | append_singleton xs y ih =>
    have last : longest size hit (xs ++ [y]) = better size hit (longest size hit xs) y := by
      rw [longest, foldl_append]
      rfl
    rw [last, better]
    rcases ih with ⟨kept, zero⟩ | ⟨x, kept, positive, leads⟩
    · rw [kept]
      by_cases replaced : hit y = true ∧ 0 < size y
      · refine .inr ⟨y, if_pos replaced, replaced.2, replaced.1, xs, [], rfl, ?_,
          nofun⟩
        intro z member hits
        rw [zero z member hits]
        exact replaced.2
      · refine .inl ⟨if_neg replaced, fun z member hits => ?_⟩
        rcases mem_append.mp member with old | new
        · exact zero z old hits
        · rw [mem_singleton.mp new] at hits ⊢
          exact Nat.eq_zero_of_not_pos fun positive => replaced ⟨hits, positive⟩
    · rw [kept]
      by_cases replaced : hit y = true ∧ size x < size y
      · refine .inr ⟨y, if_pos replaced, by omega, replaced.1, xs, [], rfl, ?_,
          nofun⟩
        intro z member hits
        exact (leads.largest member hits).trans_lt replaced.2
      · refine .inr ⟨x, if_neg replaced, positive, leads.snoc fun hits => ?_⟩
        exact Nat.le_of_not_lt fun larger => replaced ⟨hits, larger⟩

theorem Leads.mem_before {before after : List α} (leads : Leads size hit xs x)
    (split : xs = before ++ y :: after) (hits : hit y = true) (large : size x ≤ size y)
    (other : x ≠ y) : x ∈ before := by
  obtain ⟨-, before', after', split', smaller, -⟩ := leads
  rcases append_eq_append_iff.mp (split.symm.trans split') with ⟨between, ahead, tail⟩ |
      ⟨between, ahead, tail⟩
  · cases between with
    | nil => exact absurd (List.cons.inj tail).1.symm other
    | cons z between =>
      obtain ⟨rfl, -⟩ := List.cons.inj tail
      have impossible := smaller y (by rw [ahead]; simp) hits
      omega
  · cases between with
    | nil => exact absurd (List.cons.inj tail).1 other
    | cons z between =>
      obtain ⟨rfl, -⟩ := List.cons.inj tail
      rw [ahead]
      simp

theorem Leads.unique {x' : α} (leads : Leads size hit xs x) (leads' : Leads size hit xs x') :
    x = x' := by
  have first : size x ≤ size x' := leads'.largest leads.mem leads.1
  have second : size x' ≤ size x := leads.largest leads'.mem leads'.1
  by_contra other
  obtain ⟨hits', before, after, split, smaller, -⟩ := leads'
  have early : x ∈ before := leads.mem_before split hits' first other
  have impossible := smaller x early leads.1
  omega

theorem exists_leads (member : y ∈ xs) (hits : hit y = true) :
    ∃ x, Leads size hit xs x := by
  -- with sizes one larger every hit has a positive size
  rcases longest_spec (fun x => size x + 1) hit xs with
    ⟨-, zero⟩ | ⟨x, -, -, hitsX, before, after, split, smaller, behind⟩
  · exact absurd (zero y member hits) (Nat.succ_ne_zero _)
  · exact ⟨x, hitsX, before, after, split,
      fun z early hitsZ => Nat.lt_of_succ_lt_succ (smaller z early hitsZ),
      fun z late hitsZ => Nat.le_of_succ_le_succ (behind z late hitsZ)⟩

theorem longest_map {β : Type} (f : β → α) (xs : List β) :
    longest size hit (xs.map f) =
      (longest (fun x => size (f x)) (fun x => hit (f x)) xs).map f := by
  suffices all : ∀ kept : Option β, (xs.map f).foldl (better size hit) (kept.map f) =
      (xs.foldl (better (fun x => size (f x)) fun x => hit (f x)) kept).map f from all none
  induction xs with
  | nil => exact fun kept => rfl
  | cons x xs ih =>
    intro kept
    have step : better size hit (kept.map f) (f x) =
        (better (fun x => size (f x)) (fun x => hit (f x)) kept x).map f := by
      unfold better
      rw [apply_ite (Option.map f)]
      cases kept <;> rfl
    rw [map_cons, foldl_cons, foldl_cons, step, ih]

end Scan

/-! ### Subnets -/

/-- The mask of the `n` leading bits. -/
def highBits (w n : Nat) : BitVec w := ~~~(BitVec.allOnes w >>> n)

theorem and_highBits_eq_iff {w n : Nat} (small : n ≤ w) (a b : BitVec w) :
    a &&& highBits w n = b &&& highBits w n ↔ a >>> (w - n) = b >>> (w - n) := by
  constructor
  · intro same
    refine BitVec.eq_of_getLsbD_eq fun i inside => ?_
    have bit := congrArg (fun v => v.getLsbD (w - n + i)) same
    by_cases there : w - n + i < w
    · simp [highBits, there] at bit
      grind
    · simp [BitVec.getLsbD_of_ge _ _ (Nat.le_of_not_lt there)]
  · intro same
    refine BitVec.eq_of_getLsbD_eq fun i inside => ?_
    by_cases leading : w - n ≤ i
    · have bit := congrArg (fun v => v.getLsbD (i - (w - n))) same
      simp [highBits, inside, Nat.add_sub_cancel' leading] at bit ⊢
      grind
    · simp [highBits]
      grind

theorem highBits_ne_zero {w n : Nat} (some : 0 < n) (wide : 0 < w) : highBits w n ≠ 0 := by
  intro zero
  have bit := congrArg (fun v => v.getLsbD (w - 1)) zero
  simp [highBits, wide] at bit
  omega

structure Subnet (w : Nat) where
  address : BitVec w
  length : Nat
  fits : length ≤ w
deriving DecidableEq

namespace Subnet

variable {w : Nat}

def Contains (net : Subnet w) (ip : BitVec w) : Prop :=
  net.address >>> (w - net.length) = ip >>> (w - net.length)

instance (net : Subnet w) (ip : BitVec w) : Decidable (net.Contains ip) :=
  inferInstanceAs (Decidable (_ = _))

def Same (net net' : Subnet w) : Prop := net.length = net'.length ∧ net.Contains net'.address

theorem Same.symm {net net' : Subnet w} (same : net.Same net') : net'.Same net := by
  refine ⟨same.1.symm, ?_⟩
  rw [Contains, ← same.1]
  exact same.2.symm

theorem same_of_contains {net net' : Subnet w} {ip : BitVec w} (long : net.length = net'.length)
    (inside : net.Contains ip) (inside' : net'.Contains ip) : net.Same net' := by
  refine ⟨long, inside.trans ?_⟩
  rw [long]
  exact inside'.symm

end Subnet

end Longest
