/-
**Taking nodes out of a linked list.**

A list is its nodes in order, each with an address. A walk keeps the address of the node behind
which the next one hangs, `last`, and a node is taken out by an assignment to the `next` of `last`,
or to the head of the list where there is none.

* `unlink_eq`: with the right `last`, exactly one node is taken out;
* `unlinkFirst_spec`: a walk up to the first node of a kind, also from a `last` that an earlier walk
  has left behind;
* `unlinkEach_all`: a walk that takes out every node of a kind and does something with it.
-/

import Mathlib.Data.List.Basic

namespace Unlink

open List

variable {α σ : Type} (addr : α → Nat)

/-- `p->next = rest` for the node at address `p`. -/
def relink (p : Nat) (rest : List α) : List α → List α
  | [] => []
  | a :: nodes => if addr a = p then a :: rest else a :: relink p rest nodes

/-- `if (last) last->next = rest; else head = rest;` -/
def unlink (nodes : List α) (last : Option Nat) (rest : List α) : List α :=
  match last with
  | none => rest
  | some p => relink addr p rest nodes

/-- A walk to the first node with `p`: the node, the list without it, and `last`. -/
def unlinkFirst (p : α → Bool) (nodes : List α) (last : Option Nat) :
    List α → Option (α × List α × Option Nat)
  | [] => none
  | a :: rest =>
    if p a then some (a, unlink addr nodes last rest, last)
    else unlinkFirst p nodes (some (addr a)) rest

/-- A walk that takes out every node with `p`, and visits it. -/
def unlinkEach (p : α → Bool) (visit : σ → α → σ) (nodes : List α) (s : σ) (last : Option Nat) :
    List α → List α × σ
  | [] => (nodes, s)
  | a :: rest =>
    if p a then unlinkEach p visit (unlink addr nodes last rest) (visit s a) last rest
    else unlinkEach p visit nodes s (some (addr a)) rest

variable {addr}

variable {back front nodes : List α} {a : α} {p : α → Bool}

theorem relink_eq {rest : List α} (distinct : ((front ++ a :: back).map addr).Nodup) :
    relink addr (addr a) rest (front ++ a :: back) = front ++ a :: rest := by
  induction front with
  | nil => exact if_pos rfl
  | cons b front ih =>
    rw [cons_append, map_cons, nodup_cons] at distinct
    have other : ¬ addr b = addr a := fun same =>
      distinct.1 (mem_map.mpr ⟨a, by simp, same.symm⟩)
    rw [cons_append, relink, if_neg other, ih distinct.2]
    rfl

theorem unlink_eq (distinct : ((front ++ a :: back).map addr).Nodup) :
    unlink addr (front ++ a :: back) (front.getLast?.map addr) back = front ++ back := by
  rcases eq_nil_or_concat front with rfl | ⟨front, b, rfl⟩
  · rfl
  · rw [concat_eq_append, append_assoc, singleton_append] at distinct
    rw [concat_eq_append, getLast?_concat, Option.map_some, unlink, append_assoc,
      singleton_append, relink_eq distinct, append_assoc]
    rfl

theorem unlinkFirst_skip (nodes : List α) (last : Option Nat) (skipped : ∀ b ∈ front, p b = false)
    (rest : List α) :
    unlinkFirst addr p nodes last (front ++ rest) =
      unlinkFirst addr p nodes ((front.getLast?.map addr).or last) rest := by
  induction front generalizing last with
  | nil => rfl
  | cons b front ih =>
    have here : p b = false := skipped b mem_cons_self
    rw [cons_append, unlinkFirst, here]
    refine (ih (some (addr b)) fun c member => skipped c (mem_cons_of_mem _ member)).trans ?_
    cases front with
    | nil => rfl
    | cons c front =>
      rw [getLast?_cons_cons, getLast?_eq_some_getLast (cons_ne_nil c front)]
      rfl

/-- A walk may begin with `last`: there is none, or the first node is not looked for. -/
def Ready (p : α → Bool) (last : Option Nat) (nodes : List α) : Prop :=
  last = none ∨ ∀ a ∈ nodes.head?, p a = false

/-- **A walk to the first node with `p`**; its `last` is fit for the next walk. -/
theorem unlinkFirst_spec {last : Option Nat} (distinct : (nodes.map addr).Nodup)
    (ready : Ready p last nodes) :
    ((∀ a ∈ nodes, p a = false) ∧ unlinkFirst addr p nodes last nodes = none) ∨
      ∃ front a back last', nodes = front ++ a :: back ∧ (∀ b ∈ front, p b = false) ∧ p a = true ∧
        unlinkFirst addr p nodes last nodes = some (a, front ++ back, last') ∧
        Ready p last' (front ++ back) := by
  cases found : nodes.find? p with
  | none =>
    have absent : ∀ a ∈ nodes, p a = false := by simpa using found
    refine .inl ⟨absent, ?_⟩
    rw [← append_nil nodes, unlinkFirst_skip (nodes ++ []) last (by simpa using absent) []]
    rfl
  | some a =>
    obtain ⟨here, front, back, rfl, skipped⟩ := find?_eq_some_iff_append.mp found
    have skipped : ∀ b ∈ front, p b = false := by simpa using skipped
    right
    refine ⟨front, a, back, (front.getLast?.map addr).or last, rfl, skipped, here, ?_, ?_⟩
    · rw [unlinkFirst_skip _ _ skipped, unlinkFirst, if_pos here]
      have behind : (front.getLast?.map addr).or last = front.getLast?.map addr := by
        cases front with
        | nil =>
          rcases ready with rfl | first
          · rfl
          · rw [nil_append] at first
            rw [first a rfl] at here
            cases here
        | cons b front => simp [getLast?_cons]
      rw [behind, unlink_eq distinct]
    · cases front with
      | nil =>
        rcases ready with rfl | first
        · exact .inl rfl
        · rw [nil_append] at first
          rw [first a rfl] at here
          cases here
      | cons b front =>
        right
        intro c member
        obtain rfl := Option.some.inj member
        exact skipped _ mem_cons_self

theorem filter_only (here : p a = true) (others : ∀ b ∈ front ++ back, p b = false) :
    (front ++ a :: back).filter p = [a] ∧ (front ++ a :: back).filter (! p ·) = front ++ back := by
  rw [forall_mem_append] at others
  have nothing {l : List α} (misses : ∀ b ∈ l, p b = false) : l.filter p = [] :=
    filter_eq_nil_iff.mpr fun b member => by simp [misses b member]
  have everything {l : List α} (misses : ∀ b ∈ l, p b = false) : l.filter (! p ·) = l :=
    filter_eq_self.mpr fun b member => by simp [misses b member]
  rw [filter_append, filter_append, filter_cons_of_pos here,
    filter_cons_of_neg (by simp [here]), nothing others.1, nothing others.2,
    everything others.1, everything others.2]
  exact ⟨rfl, rfl⟩

theorem unlinkEach_eq (visit : σ → α → σ) {rest : List α}
    (distinct : ((front ++ rest).map addr).Nodup) (s : σ) :
    unlinkEach addr p visit (front ++ rest) s (front.getLast?.map addr) rest =
      (front ++ rest.filter (! p ·), (rest.filter p).foldl visit s) := by
  induction rest generalizing front s with
  | nil => simp [unlinkEach]
  | cons a rest ih =>
    rw [unlinkEach]
    cases here : p a with
    | false =>
      have longer : (((front ++ [a]) ++ rest).map addr).Nodup := by
        rwa [append_assoc, singleton_append]
      have more := ih longer s
      rw [append_assoc, getLast?_concat, Option.map_some, singleton_append] at more
      simp [more, here]
    | true =>
      have fewer : ((front ++ rest).map addr).Nodup :=
        distinct.sublist ((List.Sublist.append_left (sublist_cons_self a rest) front).map addr)
      rw [if_pos rfl, unlink_eq distinct, ih fewer]
      simp [here]

theorem unlinkEach_all (visit : σ → α → σ) (distinct : (nodes.map addr).Nodup) (s : σ) :
    unlinkEach addr p visit nodes s none nodes =
      (nodes.filter (! p ·), (nodes.filter p).foldl visit s) :=
  unlinkEach_eq visit (show (([] ++ nodes).map addr).Nodup from distinct) s

end Unlink
