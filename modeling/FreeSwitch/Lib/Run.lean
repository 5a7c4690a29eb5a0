/-
**Runs of a step function.**

A run takes inputs one after another. `Along ok s as` says that every input of the run is allowed
by `ok` in the state it is taken in, and a state is passed by the run when a beginning of the run
ends in it.

* `along_iff_splits`: a run is allowed when each of its steps is, in the state before it;
* `run_keeps`: what every allowed step keeps, a run of allowed steps keeps;
* `run_related`: the same for what relates a state to a later one;
* `run_iff_along`, `always_iff_along`: where this is exact, for the end of a run and for all of it.
-/

import Mathlib

namespace Run

open List

variable {σ α : Type} {step : σ → α → σ} {ok : σ → α → Prop} {P : σ → Prop} {s t u : σ}
  {as : List α}

/-- The state after the inputs `as`. -/
def run (step : σ → α → σ) (s : σ) (as : List α) : σ := as.foldl step s

def Along (step : σ → α → σ) (ok : σ → α → Prop) : σ → List α → Prop
  | _, [] => True
  | s, a :: as => ok s a ∧ Along step ok (step s a) as

instance Along.decidable [∀ s a, Decidable (ok s a)] :
    (s : σ) → (as : List α) → Decidable (Along step ok s as)
  | _, [] => .isTrue trivial
  | s, a :: as =>
    have := Along.decidable (step s a) as
    inferInstanceAs (Decidable (ok s a ∧ Along step ok (step s a) as))

@[simp] theorem run_nil (s : σ) : run step s [] = s := rfl

@[simp] theorem run_cons (s : σ) (a : α) (as : List α) :
    run step s (a :: as) = run step (step s a) as := rfl

theorem run_append (s : σ) (as bs : List α) :
    run step s (as ++ bs) = run step (run step s as) bs := foldl_append ..

theorem along_of_forall (all : ∀ a ∈ as, ∀ s, ok s a) (s : σ) :
    Along step ok s as := by
  induction as generalizing s with
  | nil => trivial
  | cons a as ih =>
    refine ⟨all a mem_cons_self s, ih (fun b member => ?_) _⟩
    exact all b (mem_cons_of_mem _ member)

theorem along_iff_forall {ok : α → Prop} :
    Along step (fun _ => ok) s as ↔ ∀ a ∈ as, ok a := by
  induction as generalizing s with
  | nil => simp [Along]
  | cons a as ih => rw [Along, ih, forall_mem_cons]

theorem along_iff_splits :
    Along step ok s as ↔ ∀ done a, done ++ [a] <+: as → ok (run step s done) a := by
  induction as generalizing s with
  | nil => exact ⟨fun _ done a begins => absurd (prefix_nil.mp begins) (by simp), fun _ => trivial⟩
  | cons b as ih =>
    constructor
    · intro allowed done a begins
      cases done with
      | nil =>
        obtain ⟨rfl, -⟩ := cons_prefix_cons.mp begins
        exact allowed.1
      | cons c done =>
        obtain ⟨rfl, later⟩ := cons_prefix_cons.mp begins
        exact ih.mp allowed.2 done a later
    · intro all
      refine ⟨all [] b ⟨as, rfl⟩, ih.mpr fun done a begins => ?_⟩
      exact all (b :: done) a (cons_prefix_cons.mpr ⟨rfl, begins⟩)

theorem Along.beginning {done : List α} (begins : done <+: as)
    (allowed : Along step ok s as) : Along step ok s done := by
  induction done generalizing s as with
  | nil => trivial
  | cons a done ih =>
    obtain ⟨rest, rfl⟩ := begins
    exact ⟨allowed.1, ih ⟨rest, rfl⟩ allowed.2⟩

/-- **What every allowed step keeps, a run of allowed steps keeps.** -/
theorem run_keeps (keeps : ∀ s a, P s → ok s a → P (step s a)) (start : P s)
    (allowed : Along step ok s as) : P (run step s as) := by
  induction as generalizing s with
  | nil => exact start
  | cons a as ih => exact ih (keeps s a start allowed.1) allowed.2

theorem run_related {I : σ → Prop} {R : σ → σ → Prop} (refl : ∀ s, R s s)
    (trans : ∀ {s t u}, R s t → R t u → R s u)
    (keeps : ∀ s a, I s → ok s a → I (step s a) ∧ R s (step s a)) (inv : I s)
    (allowed : Along step ok s as) : R s (run step s as) := by
  induction as generalizing s with
  | nil => exact refl s
  | cons a as ih =>
    obtain ⟨next, related⟩ := keeps s a inv allowed.1
    exact trans related (ih next allowed.2)

theorem Along.ending {done more : List α} (allowed : Along step ok s (done ++ more)) :
    Along step ok (run step s done) more := by
  induction done generalizing s with
  | nil => exact allowed
  | cons a done ih => exact ih allowed.2

/-- An allowed run from `s` ends in `t`. -/
def Leads (step : σ → α → σ) (ok : σ → α → Prop) (s : σ) (as : List α) (t : σ) : Prop :=
  Along step ok s as ∧ run step s as = t

theorem Leads.refl (s : σ) : Leads step ok s [] s := ⟨trivial, rfl⟩

theorem Leads.cons {a : α} (fine : ok s a) (goes : step s a = t)
    (rest : Leads step ok t as u) : Leads step ok s (a :: as) u := by
  subst goes
  exact ⟨⟨fine, rest.1⟩, rest.2⟩

theorem Leads.append {bs : List α} (first : Leads step ok s as t)
    (second : Leads step ok t bs u) : Leads step ok s (as ++ bs) u := by
  induction as generalizing s with
  | nil =>
    obtain ⟨-, rfl⟩ := first
    exact second
  | cons a as ih => exact Leads.cons first.1.1 rfl (ih ⟨first.1.2, first.2⟩)

theorem Leads.mono {weak : σ → α → Prop} (leads : Leads step ok s as t)
    (weaker : ∀ s a, ok s a → weak s a) : Leads step weak s as t := by
  induction as generalizing s with
  | nil => exact ⟨trivial, leads.2⟩
  | cons a as ih => exact Leads.cons (weaker s a leads.1.1) rfl (ih ⟨leads.1.2, leads.2⟩)

theorem Leads.always (leads : Leads step (fun s a => ok s a ∧ P s) s as t) (last : P t)
    {done : List α} (begins : done <+: as) : P (run step s done) := by
  induction as generalizing s done with
  | nil =>
    obtain rfl := prefix_nil.mp begins
    obtain ⟨-, rfl⟩ := leads
    exact last
  | cons a as ih =>
    cases done with
    | nil => exact leads.1.1.2
    | cons b done =>
      obtain ⟨rfl, later⟩ := cons_prefix_cons.mp begins
      exact ih ⟨leads.1.2, leads.2⟩ later

theorem run_keeps_all (keeps : ∀ s a, P s → P (step s a)) (start : P s) (as : List α) : P (run step s as) :=
  List.foldlRecOn as step start fun s holds a _ => keeps s a holds

theorem Along.passed (allowed : Along step ok s as)
    (always : ∀ done, done <+: as → P (run step s done)) :
    Along step (fun s a => ok s a ∧ P s) s as := by
  induction as generalizing s with
  | nil => trivial
  | cons a as ih =>
    refine ⟨⟨allowed.1, always [] ⟨_, rfl⟩⟩, ih allowed.2 fun done begins => ?_⟩
    exact always (a :: done) (cons_prefix_cons.mpr ⟨rfl, begins⟩)

/-- **What a state makes of a stream is conserved** when allowed steps take their parts from its
front: `promise s t` is the result of `s` with `t` to come. -/
theorem Along.conserves {β γ : Type} {I : σ → Prop} {part : α → List β}
    {promise : σ → List β → γ} (allowed : Along step ok s as) (inv : I s)
    (keeps : ∀ s a, I s → ok s a →
      I (step s a) ∧ ∀ t, promise (step s a) t = promise s (part a ++ t)) (t : List β) :
    I (run step s as) ∧ promise (run step s as) t = promise s (as.flatMap part ++ t) := by
  induction as generalizing s with
  | nil => exact ⟨inv, rfl⟩
  | cons a as ih =>
    obtain ⟨next, conserved⟩ := keeps s a inv allowed.1
    obtain ⟨later, whole⟩ := ih allowed.2 next
    refine ⟨later, ?_⟩
    rw [run_cons, whole, conserved, flatMap_cons, append_assoc]

/-- **A run seen through a view.** If every allowed step is, in the view, a step of another run or
none, the run is one of those, allowed where the first say so. -/
theorem Along.view {τ β : Type} {step' : τ → β → τ} {ok' : τ → β → Prop} {I : σ → Prop}
    {view : σ → τ} {part : α → Option β}
    (seen : ∀ s a, I s → ok s a → I (step s a) ∧
      view (step s a) = (part a).elim (view s) (step' (view s)) ∧ ∀ b ∈ part a, ok' (view s) b)
    (inv : I s) (allowed : Along step ok s as) :
    view (run step s as) = run step' (view s) (as.filterMap part) ∧
      Along step' ok' (view s) (as.filterMap part) := by
  induction as generalizing s with
  | nil => exact ⟨rfl, trivial⟩
  | cons a as ih =>
    obtain ⟨next, same, fine⟩ := seen s a inv allowed.1
    obtain ⟨runs, along⟩ := ih next allowed.2
    cases taken : part a with
    | none =>
      rw [taken, Option.elim_none] at same
      rw [same] at runs along
      rw [filterMap_cons_none taken]
      exact ⟨runs, along⟩
    | some b =>
      rw [taken, Option.elim_some] at same
      rw [same] at runs along
      rw [filterMap_cons_some taken]
      exact ⟨runs, fine b taken, along⟩

/-- **What is kept exactly by the allowed steps**, and not gained by a step, a run keeps exactly
when all its steps are allowed. -/
theorem run_iff_along (exact_step : ∀ s a, P (step s a) ↔ P s ∧ ok s a) (s : σ)
    (as : List α) : P (run step s as) ↔ P s ∧ Along step ok s as := by
  induction as generalizing s with
  | nil => exact ⟨fun holds => ⟨holds, trivial⟩, And.left⟩
  | cons a as ih =>
    rw [run_cons, ih, exact_step, and_assoc]
    rfl

/-- **The exact condition of a run**: given an invariant `I`, if a step keeps `P` exactly when it is
allowed, `P` holds throughout exactly when every step is allowed. -/
theorem always_iff_along {I : σ → Prop} (invariant : ∀ s a, I s → I (step s a))
    (exact_step : ∀ s a, I s → P s → (P (step s a) ↔ ok s a)) (inv : I s)
    (start : P s) : (∀ done, done <+: as → P (run step s done)) ↔ Along step ok s as := by
  constructor
  · intro always
    induction as generalizing s with
    | nil => trivial
    | cons a as ih =>
      have next : P (step s a) := always [a] ⟨as, rfl⟩
      refine ⟨(exact_step s a inv start).mp next, ih (invariant s a inv) next fun done begins => ?_⟩
      exact always (a :: done) (cons_prefix_cons.mpr ⟨rfl, begins⟩)
  · intro allowed done begins
    refine (run_keeps (P := fun s => I s ∧ P s) (fun s a both may => ?_) ⟨inv, start⟩
      (allowed.beginning begins)).2
    exact ⟨invariant s a both.1, (exact_step s a both.1 both.2).mpr may⟩

end Run
