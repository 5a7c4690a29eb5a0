/-
**A singly linked list with a tail pointer.**

The chain reachable from the head is a list of nodes, each at its own address; `last` is the tail
pointer, kept by hand as C code keeps it. Nothing in the type says that the two agree: appending
writes the `next` field of the node `last` points to, whatever that node is, so a stale tail
pointer loses nodes.

`Linked` is the agreement (with fresh and distinct addresses). The operations keep it
(`pushTop_linked`, `pushBottom_linked`, `delete_linked`, `modify_linked`, `mapData_linked`), and
under it they are the list operations on `contents`.
-/

import Mathlib

structure ChainNode (α : Type) where
  addr : Nat
  data : α
  deriving DecidableEq, Repr

/-- The nodes reachable from the head, the tail pointer, and the next address to allocate. -/
structure Chain (α : Type) where
  nodes : List (ChainNode α)
  last : Option Nat
  next : Nat
  deriving DecidableEq, Repr

namespace Chain

open List

variable {α : Type}

def contents (l : Chain α) : List α := l.nodes.map ChainNode.data

def empty : Chain α := ⟨[], none, 0⟩

/-- `p->next = node`: what followed `p` is no longer reachable. A `p` outside the chain changes
nothing that is. -/
def setNext (p : Nat) (node : ChainNode α) : List (ChainNode α) → List (ChainNode α)
  | [] => []
  | n :: ns => if n.addr = p then [n, node] else n :: setNext p node ns

variable (l : Chain α)

def pushTop (a : α) : Chain α where
  nodes := ⟨l.next, a⟩ :: l.nodes
  last := match l.last with
    | none => some l.next
    | some p => some p
  next := l.next + 1

def pushBottom (a : α) : Chain α where
  nodes := match l.last with
    | none => [⟨l.next, a⟩]
    | some p => setNext p ⟨l.next, a⟩ l.nodes
  last := some l.next
  next := l.next + 1

/-- One pass that unlinks every node with `p`; `lp` is the last node kept. -/
def deletePass (p : α → Bool) (lp last : Option Nat) :
    List (ChainNode α) → List (ChainNode α) × Option Nat
  | [] => ([], last)
  | n :: ns =>
    if p n.data then deletePass p lp (if some n.addr = last ∨ ns = [] then lp else last) ns
    else (n :: (deletePass p (some n.addr) last ns).1, (deletePass p (some n.addr) last ns).2)

/-- Unlink every node with `p`. -/
def delete (p : α → Bool) : Chain α where
  nodes := (deletePass p none l.last l.nodes).1
  last := (deletePass p none l.last l.nodes).2
  next := l.next

/-- Change the data of the first node with `p`. -/
def modifyNode (p : α → Bool) (f : α → α) : List (ChainNode α) → List (ChainNode α)
  | [] => []
  | n :: ns => if p n.data then { n with data := f n.data } :: ns else n :: modifyNode p f ns

/-- Change the data of the first node with `p`, through its pointer. -/
def modify (p : α → Bool) (f : α → α) : Chain α :=
  { l with nodes := modifyNode p f l.nodes }

def mapData (f : α → α) : Chain α :=
  { l with nodes := l.nodes.map fun n => { n with data := f n.data } }

def modifyFirst (p : α → Bool) (f : α → α) : List α → List α
  | [] => []
  | a :: as => if p a then f a :: as else a :: modifyFirst p f as

/-! ### The operations on the data -/

open ChainNode

variable {l : Chain α} {as : List α} {a : α} {p : α → Bool} {f : α → α}

theorem modifyFirst_none (absent : as.find? p = none) :
    modifyFirst p f as = as := by
  induction as with
  | nil => rfl
  | cons a as ih =>
    rw [find?_cons] at absent
    by_cases hit : p a = true
    · simp [hit] at absent
    · simp only [hit] at absent
      simp [modifyFirst, hit, ih absent]

theorem modifyFirst_some (found : as.find? p = some a) :
    ∃ front back, as = front ++ a :: back ∧ (∀ b ∈ front, p b = false) ∧ p a = true ∧
      ∀ f, modifyFirst p f as = front ++ f a :: back := by
  induction as with
  | nil => simp at found
  | cons b as ih =>
    rw [find?_cons] at found
    by_cases hit : p b = true
    · simp only [hit, Option.some.injEq] at found
      subst found
      exact ⟨[], as, rfl, by simp, hit, fun f => by simp [modifyFirst, hit]⟩
    · simp only [hit] at found
      obtain ⟨front, back, rfl, before, here, change⟩ := ih found
      refine ⟨b :: front, back, rfl, ?_, here, fun f => ?_⟩
      · intro c member
        rcases mem_cons.mp member with rfl | member
        · simpa using hit
        · exact before c member
      · rw [modifyFirst, if_neg hit, change, cons_append]

theorem modifyFirst_last {front : List α} (before : ∀ b ∈ front, p b = false) (here : p a = true) :
    modifyFirst p f (front ++ [a]) = front ++ [f a] := by
  induction front with
  | nil =>
    show (if p a = true then [f a] else [a]) = [f a]
    exact if_pos here
  | cons b front ih =>
    rw [cons_append, modifyFirst, if_neg (by simp [before b mem_cons_self]),
      ih fun c member => before c (mem_cons_of_mem _ member), cons_append]

theorem mem_modifyFirst {b : α} (member : b ∈ modifyFirst p f as) :
    b ∈ as ∨ ∃ a, as.find? p = some a ∧ b = f a := by
  cases found : as.find? p with
  | none => exact Or.inl (modifyFirst_none found ▸ member)
  | some a =>
    obtain ⟨front, back, rfl, -, -, change⟩ := modifyFirst_some found
    rw [change, mem_append, mem_cons] at member
    rcases member with member | rfl | member
    · exact Or.inl (mem_append_left _ member)
    · exact Or.inr ⟨a, rfl, rfl⟩
    · exact Or.inl (mem_append_right _ (mem_cons_of_mem _ member))

theorem forall_modifyFirst {Q : α → Prop} (found : as.find? p = some a) (all : ∀ b ∈ as, Q b) :
    (∀ b ∈ modifyFirst p f as, Q b) ↔ Q (f a) := by
  constructor
  · obtain ⟨front, back, rfl, -, -, change⟩ := modifyFirst_some found
    rw [change]
    exact fun after => after (f a) (mem_append_right _ mem_cons_self)
  · intro changed b member
    rcases mem_modifyFirst member with old | ⟨other, found', rfl⟩
    · exact all b old
    · rw [found] at found'
      cases found'
      exact changed

theorem map_modifyFirst {β : Type} {g : α → β} (same : ∀ a, g (f a) = g a) (p : α → Bool)
    (as : List α) : (modifyFirst p f as).map g = as.map g := by
  induction as with
  | nil => rfl
  | cons a as ih =>
    unfold modifyFirst
    split
    · rw [map_cons, map_cons, same]
    · rw [map_cons, map_cons, ih]

theorem find?_modifyFirst_other {q : α → Bool}
    (apart : ∀ a ∈ as, p a = true → q a = false ∧ q (f a) = false) :
    (modifyFirst p f as).find? q = as.find? q := by
  induction as with
  | nil => rfl
  | cons a as ih =>
    unfold modifyFirst
    split
    next hit =>
      obtain ⟨before, after⟩ := apart a mem_cons_self hit
      rw [find?_cons, find?_cons, before, after]
    · rw [find?_cons, find?_cons, ih fun b member => apart b (mem_cons_of_mem _ member)]

theorem find?_modifyFirst_self (found : as.find? p = some a) (same : p (f a) = p a) :
    (modifyFirst p f as).find? p = some (f a) := by
  obtain ⟨front, back, rfl, misses, hit, change⟩ := modifyFirst_some found
  rw [change, find?_append, find?_eq_none.mpr (by simpa using misses), find?_cons,
    same, hit]
  rfl

@[simp] theorem contents_empty : contents (empty : Chain α) = [] := rfl

@[simp] theorem contents_mapData (l : Chain α) (f : α → α) :
    contents (mapData l f) = (contents l).map f := by
  simp [contents, mapData, Function.comp_def]

@[simp] theorem contents_modify (l : Chain α) (p : α → Bool) (f : α → α) :
    contents (modify l p f) = modifyFirst p f (contents l) := by
  show (modifyNode p f l.nodes).map data = modifyFirst p f (l.nodes.map data)
  induction l.nodes with
  | nil => rfl
  | cons n ns ih =>
    by_cases hit : p n.data = true
    · simp [modifyNode, modifyFirst, hit]
    · simp [modifyNode, modifyFirst, hit, ih]

theorem deletePass_data (p : α → Bool) (nodes : List (ChainNode α)) : ∀ lp last : Option Nat,
    (deletePass p lp last nodes).1 = nodes.filter fun n => !p n.data := by
  induction nodes with
  | nil => exact fun _ _ => rfl
  | cons n ns ih =>
    intro lp last
    by_cases hit : p n.data = true <;> simp [deletePass, hit, ih]

@[simp] theorem contents_delete (l : Chain α) (p : α → Bool) :
    contents (delete l p) = (contents l).filter fun a => !p a := by
  simp [contents, delete, deletePass_data, filter_map, Function.comp_def]

theorem setNext_last (node : ChainNode α) (nodes : List (ChainNode α)) (p : Nat)
    (distinct : (nodes.map addr).Nodup) (tail : nodes.getLast?.map addr = some p) :
    setNext p node nodes = nodes ++ [node] := by
  induction nodes with
  | nil => simp at tail
  | cons n ns ih =>
    simp only [map_cons, nodup_cons] at distinct
    cases ns with
    | nil =>
      simp only [getLast?_singleton, Option.map_some, Option.some.injEq] at tail
      simp [setNext, tail]
    | cons m ms =>
      have later : (m :: ms).getLast?.map addr = some p := by simpa using tail
      -- The tail address is one of the later ones, so `n` is not the node written to.
      have other : n.addr ≠ p := by
        intro same
        obtain ⟨final, isLast, rfl⟩ := Option.map_eq_some_iff.mp later
        exact distinct.1 (same ▸ mem_map_of_mem (mem_of_getLast? isLast))
      rw [setNext, if_neg other, ih distinct.2 later]
      rfl

/-! ### The tail pointer -/

/-- **The tail pointer is the final node**, and addresses are distinct and allocated. -/
structure Linked (l : Chain α) : Prop where
  tail : l.last = l.nodes.getLast?.map addr
  allocated : ∀ n ∈ l.nodes, n.addr < l.next
  distinct : (l.nodes.map addr).Nodup

theorem empty_linked : Linked (empty : Chain α) :=
  ⟨rfl, by simp [empty], by simp [empty]⟩

theorem Linked.fresh (linked : Linked l) : l.next ∉ l.nodes.map addr := by
  intro member
  obtain ⟨n, inside, equal⟩ := mem_map.mp member
  have := linked.allocated n inside
  omega

theorem pushBottom_nodes (linked : Linked l) (a : α) :
    (pushBottom l a).nodes = l.nodes ++ [⟨l.next, a⟩] := by
  unfold pushBottom
  cases shape : l.last with
  | none =>
    have nothing : l.nodes = [] := by
      have tail := linked.tail
      rw [shape, eq_comm, Option.map_eq_none_iff, getLast?_eq_none_iff] at tail
      exact tail
    simp [nothing]
  | some p => exact setNext_last _ _ p linked.distinct (by rw [← linked.tail, shape])

theorem contents_pushBottom (linked : Linked l) (a : α) :
    contents (pushBottom l a) = contents l ++ [a] := by
  simp [contents, pushBottom_nodes linked]

theorem pushTop_linked (linked : Linked l) (a : α) : Linked (pushTop l a) where
  tail := by
    show (match l.last with | none => some l.next | some p => some p) = _
    rw [linked.tail]
    cases shape : l.nodes with
    | nil => simp [pushTop, shape]
    | cons n ns =>
      simp only [pushTop, shape, getLast?_cons_cons]
      cases lastNode : (n :: ns).getLast? with
      | none => simp at lastNode
      | some final => rfl
  allocated := by
    intro n member
    rcases mem_cons.mp member with rfl | member
    · exact Nat.lt_succ_self _
    · exact (linked.allocated n member).trans (Nat.lt_succ_self _)
  distinct := nodup_cons.mpr ⟨linked.fresh, linked.distinct⟩

theorem pushBottom_linked (linked : Linked l) (a : α) :
    Linked (pushBottom l a) where
  tail := by
    rw [pushBottom_nodes linked]
    simp [pushBottom]
  allocated := by
    rw [pushBottom_nodes linked]
    intro n member
    rcases mem_append.mp member with member | member
    · exact (linked.allocated n member).trans (Nat.lt_succ_self _)
    · rw [mem_singleton.mp member]
      exact Nat.lt_succ_self _
  distinct := by
    rw [pushBottom_nodes linked, map_append]
    exact nodup_append.mpr ⟨linked.distinct, by simp, by
      intro a member b equal
      simp only [map_cons, map_nil, mem_singleton] at equal
      subst equal
      exact fun same => linked.fresh (same ▸ member)⟩

/-- **The deletion pass moves the tail pointer to the last node kept.** The nodes before those to
visit end at `lp`, and the pointer is the final node. -/
theorem deletePass_tail (p : α → Bool) (nodes : List (ChainNode α)) : ∀ lp last : Option Nat,
    (nodes.map addr).Nodup →
    (nodes = [] → last = lp) → (nodes ≠ [] → last = nodes.getLast?.map addr) →
    (deletePass p lp last nodes).2 =
      (((deletePass p lp last nodes).1.getLast?.map addr).or lp) := by
  induction nodes with
  | nil => exact fun lp last _ atEnd _ => by simp [deletePass, atEnd rfl]
  | cons n ns ih =>
    intro lp last distinct _ inside
    simp only [map_cons, nodup_cons] at distinct
    have final := inside (by simp)
    by_cases hit : p n.data = true
    · rw [deletePass, if_pos hit]
      refine ih lp _ distinct.2 ?_ ?_
      · intro nothing
        simp [nothing]
      · intro more
        have stays : ¬ (some n.addr = last ∨ ns = []) := by
          rintro (same | nothing)
          · cases ns with
            | nil => exact more rfl
            | cons m ms =>
              rw [final, getLast?_cons_cons] at same
              obtain ⟨other, isLast, equal⟩ := Option.map_eq_some_iff.mp same.symm
              exact distinct.1 (equal ▸ mem_map_of_mem (mem_of_getLast? isLast))
          · exact more nothing
        rw [if_neg stays, final]
        obtain ⟨m, ms, rfl⟩ := exists_cons_of_ne_nil more
        rw [getLast?_cons_cons]
    · rw [deletePass, if_neg hit]
      simp only
      rw [ih (some n.addr) last distinct.2 (fun nothing => by simp [final, nothing]) fun more => by
        obtain ⟨m, ms, rfl⟩ := exists_cons_of_ne_nil more
        rw [final, getLast?_cons_cons]]
      cases shape : (deletePass p (some n.addr) last ns).1 with
      | nil => simp
      | cons m ms =>
        rw [getLast?_cons_cons]
        cases lastNode : (m :: ms).getLast? with
        | none => simp at lastNode
        | some other => rfl

theorem delete_linked (linked : Linked l) (p : α → Bool) :
    Linked (delete l p) where
  tail := by
    have moved := deletePass_tail p l.nodes none l.last linked.distinct
      (fun nothing => by rw [linked.tail, nothing]; rfl) fun _ => linked.tail
    simpa [delete] using moved
  allocated := by
    intro n member
    rw [delete, deletePass_data] at member
    exact linked.allocated n (mem_of_mem_filter member)
  distinct := by
    rw [delete, deletePass_data]
    exact linked.distinct.sublist (filter_sublist.map _)

theorem modifyNode_addr (p : α → Bool) (f : α → α) (nodes : List (ChainNode α)) :
    (modifyNode p f nodes).map addr = nodes.map addr := by
  induction nodes with
  | nil => rfl
  | cons n ns ih =>
    by_cases hit : p n.data = true
    · simp [modifyNode, hit]
    · simp [modifyNode, hit, ih]

theorem linked_of_addr (linked : Linked l) {nodes : List (ChainNode α)}
    (same : nodes.map addr = l.nodes.map addr) :
    Linked { l with nodes := nodes } where
  tail := by
    show l.last = _
    rw [linked.tail, ← getLast?_map, ← getLast?_map, same]
  allocated := by
    intro n member
    have inside : n.addr ∈ l.nodes.map addr := same ▸ mem_map_of_mem member
    obtain ⟨m, old, equal⟩ := mem_map.mp inside
    rw [← equal]
    exact linked.allocated m old
  distinct := same ▸ linked.distinct

theorem modify_linked (linked : Linked l) (p : α → Bool) (f : α → α) :
    Linked (modify l p f) := linked_of_addr linked (modifyNode_addr p f l.nodes)

theorem mapData_linked (linked : Linked l) (f : α → α) : Linked (mapData l f) :=
  linked_of_addr linked (by simp [Function.comp_def])

end Chain
