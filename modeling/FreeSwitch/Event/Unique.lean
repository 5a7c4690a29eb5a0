/-
**Events with unique headers.**

An event that carries `EF_UNIQ_HEADERS` is meant to hold each name once, up to case. An addition
deletes the name before it links a header, so additions, deletions and merges keep that; a rename
writes the new name without looking for it.

* `unique_headers_iff_no_clash`: the names are unique throughout a run in which no rename clashes.
-/

import FreeSwitch.Event.Reach

namespace FreeSwitch

open CString List Run

def Event.names (e : Event) : List Text := e.list.map Header.name

def UniqueNames (e : Event) : Prop := e.names.Pairwise fun a b => ciEq a b = false

instance (e : Event) : Decidable (UniqueNames e) :=
  inferInstanceAs (Decidable (e.names.Pairwise fun a b => ciEq a b = false))

structure Flagged (e : Event) : Prop where
  wf : WellFormed e
  uniq : e.uniqHeaders = true

variable {e e' : Event} {name : Text}

theorem WellFormed.absent (wf : WellFormed e) :
    eventGetHeaderPtr e name = none ↔ ∀ n ∈ e.names, ciEq n name = false := by
  rw [wf.getHeaderPtr, find?_eq_none]
  simp only [Event.names, mem_map, forall_exists_index, and_imp, forall_apply_eq_imp_iff₂,
    Bool.not_eq_true]

/-! ### The names a step leaves -/

@[simp] theorem addIndexed_name (index : Nat) (data : Text) (h : Header) :
    (addIndexed index data h).name = h.name := by
  unfold addIndexed
  split
  · rfl
  · rw [redraw_name]

@[simp] theorem pushOnto_name (stack : Stack) (data : Text) (h : Header) :
    (pushOnto stack data h).name = h.name := by rw [pushOnto_eq]

theorem names_modify {f : Header → Header} (same : ∀ h, (f h).name = h.name) (e : Event)
    (p : Header → Bool) : { e with headers := e.headers.modify p f }.names = e.names := by
  unfold Event.names Event.list
  rw [Chain.contents_modify]
  exact Chain.map_modifyFirst same p _

theorem names_eventDelHeaderVal (e : Event) (name : Text) (val : Option Text) :
    (eventDelHeaderVal e name val).1.names.Sublist e.names := by
  unfold Event.names Event.list eventDelHeaderVal
  rw [Chain.contents_delete]
  exact filter_sublist.map _

theorem names_linkHeader (linked : e.headers.Linked) (stack : Stack) (name data : Text) :
    (linkHeader e stack (freshHeader stack name data)).names =
      if stack.top then name :: e.names else e.names ++ [name] := by
  unfold Event.names
  rw [linkHeader_list linked]
  split
  · rfl
  · rw [map_append]
    rfl

theorem HeaderStep.names (step : HeaderStep name e e') (linked : e.headers.Linked) :
    e'.names.Sublist e.names ∨
      (e.uniqHeaders = true → eventGetHeaderPtr e name = none) ∧
        (e'.names = name :: e.names ∨ e'.names = e.names ++ [name]) := by
  cases step with
  | setBody body => exact Or.inl (List.Sublist.refl _)
  | delete => exact Or.inl (names_eventDelHeaderVal e name none)
  | grow index data h _ _ =>
    exact Or.inl (by rw [names_modify (addIndexed_name index data)])
  | push stack data h _ =>
    exact Or.inl (by rw [names_modify (pushOnto_name stack data)])
  | link stack data absent _ _ _ =>
    refine Or.inr ⟨fun uniq => absent (Or.inl uniq), ?_⟩
    rw [names_linkHeader linked]
    split
    · exact Or.inl rfl
    · exact Or.inr rfl

theorem HeaderStep.uniqHeaders (step : HeaderStep name e e') :
    e'.uniqHeaders = e.uniqHeaders := by
  cases step <;> rfl

theorem HeaderStep.unique (step : HeaderStep name e e') (flags : Flagged e) (unique : UniqueNames e) :
    UniqueNames e' := by
  rcases step.names flags.wf.linked with fewer | ⟨absent, added⟩
  · exact unique.sublist fewer
  · have free := flags.wf.absent.mp (absent flags.uniq)
    rcases added with first | final
    · unfold UniqueNames
      rw [first]
      exact pairwise_cons.mpr ⟨fun n member => ciEq_comm n name ▸ free n member, unique⟩
    · unfold UniqueNames
      rw [final]
      refine pairwise_append.mpr ⟨unique, pairwise_singleton _ _, fun n member m only => ?_⟩
      rw [mem_singleton.mp only]
      exact free n member

/-! ### Additions -/

theorem applyAddition_names (wf : WellFormed e) (a : Addition) :
    ∀ n ∈ (applyAddition e a).names, n ∈ e.names ∨ n = (cut '[' a.name).1 := by
  obtain ⟨stack, name, data⟩ := a
  cases data with
  | none => exact fun n member => Or.inl member
  | some data =>
    show ∀ n ∈ (eventBaseAddHeader e stack name data).names, _
    cases written : overwritten e name with
    | some place =>
      rw [eventBaseAddHeader_overwrite written, names_modify (addIndexed_name _ _)]
      exact fun n member => Or.inl member
    | none =>
      refine (HeaderSteps.keeps (P := fun e' => WellFormed e' ∧
        ∀ n ∈ e'.names, n ∈ e.names ∨ n = (cut '[' name).1) (fun e₁ e₂ step both => ?_)
        (eventBaseAddHeader_steps data e stack name written) ⟨wf, fun n => Or.inl⟩).2
      refine ⟨step.wellFormed both.1, fun n member => ?_⟩
      rcases step.names both.1.linked with fewer | ⟨-, first | final⟩
      · exact both.2 n (fewer.subset member)
      · rcases mem_cons.mp (first ▸ member) with rfl | old
        · exact Or.inr rfl
        · exact both.2 n old
      · rcases mem_append.mp (final ▸ member) with old | only
        · exact both.2 n old
        · exact Or.inr (mem_singleton.mp only)

theorem applyAddition_field {β : Type} {f : Event → β}
    (headers : ∀ (e : Event) l, f { e with headers := l } = f e)
    (body : ∀ (e : Event) b, f { e with body := b } = f e) (e : Event) (a : Addition) :
    f (applyAddition e a) = f e := by
  obtain ⟨stack, name, data⟩ := a
  cases data with
  | none => rfl
  | some data =>
    show f (eventBaseAddHeader e stack name data) = f e
    cases written : overwritten e name with
    | some place =>
      rw [eventBaseAddHeader_overwrite written]
      exact headers e _
    | none =>
      refine HeaderSteps.keeps (P := fun e' => f e' = f e) (fun e₁ e₂ step same => ?_)
        (eventBaseAddHeader_steps data e stack name written) rfl
      rw [← same]
      cases step with
      | setBody text => exact body e₁ _
      | _ => exact headers e₁ _

theorem applyAddition_uniqHeaders (e : Event) (a : Addition) :
    (applyAddition e a).uniqHeaders = e.uniqHeaders :=
  applyAddition_field (fun _ _ => rfl) (fun _ _ => rfl) e a

theorem applyAddition_flagged (flags : Flagged e) (a : Addition) :
    Flagged (applyAddition e a) :=
  ⟨applyAddition_wellFormed flags.wf a, (applyAddition_uniqHeaders e a).trans flags.uniq⟩

theorem applyAddition_unique (flags : Flagged e) (unique : UniqueNames e) (a : Addition) :
    UniqueNames (applyAddition e a) := by
  obtain ⟨stack, name, data⟩ := a
  cases data with
  | none => exact unique
  | some data =>
    show UniqueNames (eventBaseAddHeader e stack name data)
    cases written : overwritten e name with
    | some place =>
      unfold UniqueNames
      rw [eventBaseAddHeader_overwrite written, names_modify (addIndexed_name _ _)]
      exact unique
    | none =>
      refine (HeaderSteps.keeps (P := fun e => Flagged e ∧ UniqueNames e) (fun e₁ e₂ step both => ?_)
        (eventBaseAddHeader_steps data e stack name written) ⟨flags, unique⟩).2
      obtain ⟨flags₁, unique₁⟩ := both
      have flags₂ : Flagged e₂ := ⟨step.wellFormed flags₁.wf, step.uniqHeaders.trans flags₁.uniq⟩
      exact ⟨flags₂, step.unique flags₁ unique₁⟩

/-! ### Renames -/

theorem names_eventRenameHeader (wf : WellFormed e) (name newName : Text) :
    (eventRenameHeader e name newName).1.names =
      e.names.map fun n => if ciEq n name then newName else n := by
  unfold Event.names Event.list eventRenameHeader
  rw [Chain.contents_mapData, map_map, map_map]
  refine map_congr_left fun h member => ?_
  simp only [Function.comp_apply, renameHeader, wf.hasName member]
  split <;> rfl

def RenameFree (e : Event) (name newName : Text) : Prop :=
  (∀ n ∈ e.names, ciEq n name = false) ∨ ciEq name newName = true ∨
    ∀ n ∈ e.names, ciEq n newName = false

theorem uniqueNames_iff (e : Event) : UniqueNames e ↔ (e.names.map lower).Nodup := by
  unfold UniqueNames List.Nodup
  rw [pairwise_map]
  refine List.Pairwise.iff fun {a b} => ?_
  rw [← Bool.not_eq_true, ciEq_iff]

theorem nodup_map_replace {keys : List Text} (nodup : keys.Nodup) (old new : Text) :
    (keys.map fun k => if k = old then new else k).Nodup ↔
      old ∉ keys ∨ old = new ∨ new ∉ keys := by
  rw [nodup_map_iff_inj_on nodup]
  constructor
  · intro injective
    by_contra clash
    simp only [not_or, not_not] at clash
    obtain ⟨oldIn, differ, newIn⟩ := clash
    have same := injective old oldIn new newIn
    rw [if_pos rfl, if_neg (Ne.symm differ)] at same
    exact differ (same rfl)
  · intro free x xIn y yIn same
    split at same
    next xOld =>
      split at same
      next yOld =>
        rw [xOld, yOld]
      · rcases free with absent | rfl | absent
        · exact absurd (xOld ▸ xIn) absent
        · exact xOld.trans same
        · exact absurd (same ▸ yIn) absent
    · split at same
      next yOld =>
        rcases free with absent | rfl | absent
        · exact absurd (yOld ▸ yIn) absent
        · exact same.trans yOld.symm
        · exact absurd (same ▸ xIn) absent
      · exact same

theorem eventRenameHeader_unique (wf : WellFormed e) (unique : UniqueNames e) (name newName : Text) :
    UniqueNames (eventRenameHeader e name newName).1 ↔ RenameFree e name newName := by
  have absentKey : ∀ name, (∀ n ∈ e.names, ciEq n name = false) ↔
      lower name ∉ e.names.map lower := by
    intro name
    simp only [mem_map, not_exists, not_and, ← Bool.not_eq_true, ciEq_iff]
  have keys : (eventRenameHeader e name newName).1.names.map lower =
      (e.names.map lower).map fun k => if k = lower name then lower newName else k := by
    rw [names_eventRenameHeader wf, map_map, map_map]
    refine map_congr_left fun n _ => ?_
    simp only [Function.comp_apply, ciEq_iff]
    split <;> rfl
  rw [uniqueNames_iff, keys, nodup_map_replace ((uniqueNames_iff e).mp unique)]
  unfold RenameFree
  rw [absentKey, absentKey, ciEq_iff]

/-! ### The events a run starts from -/

theorem dupStart_wellFormed (todup : Event) : WellFormed (dupStart todup) := by
  have empty : WellFormed (eventAlloc .clone) :=
    ⟨Chain.empty_linked, fun _ member => absurd member not_mem_nil⟩
  have kept : WellFormed (eventAddSubclass todup.subclassName (eventAlloc .clone)) := by
    cases todup.subclassName with
    | none => exact empty
    | some name =>
      have named : WellFormed { eventAlloc .clone with subclassName := some name } :=
        ⟨empty.linked, empty.good⟩
      exact applyAddition_wellFormed named ⟨Stack.bottom, "Event-Subclass", some name⟩
  exact ⟨kept.linked, kept.good⟩

/-- An event when `EF_UNIQ_HEADERS` is set on it, whatever headers it has then, and a copy of one
that has the flag. -/
inductive UniqStart : Event → Prop
  | set (e : Event) : Reached e → UniqStart { e with uniqHeaders := true }
  | dup (todup : Event) : todup.uniqHeaders = true → UniqStart (eventDup todup)

theorem UniqStart.flagged (start : UniqStart e) : Flagged e := by
  cases start with
  | set e reached =>
    have wf := reached.wellFormed fun _ _ _ => trivial
    exact ⟨⟨wf.linked, wf.good⟩, rfl⟩
  | dup todup uniq =>
    have kept : Flagged (applyAdditions (dupStart todup) (dupAdds todup)) :=
      run_keeps_all (P := Flagged) (fun _ a flags => applyAddition_flagged flags a)
        ⟨dupStart_wellFormed todup, uniq⟩ _
    rw [eventDup_eq]
    exact ⟨⟨kept.wf.linked, kept.wf.good⟩, kept.uniq⟩

/-! ### Runs -/

inductive HeaderOp
  | add (a : Addition)
  | delVal (name : Text) (val : Option Text)
  | rename (name newName : Text)
  | merge (tomerge : Event)

def HeaderOp.apply (e : Event) : HeaderOp → Event
  | .add a => applyAddition e a
  | .delVal name val => (eventDelHeaderVal e name val).1
  | .rename name newName => (eventRenameHeader e name newName).1
  | .merge tomerge => eventMerge e tomerge

def NoClash (e : Event) : HeaderOp → Prop
  | .rename name newName => RenameFree e name newName
  | _ => True

theorem HeaderOp.flagged (flags : Flagged e) (op : HeaderOp) : Flagged (op.apply e) := by
  cases op with
  | add a => exact applyAddition_flagged flags a
  | delVal name val => exact ⟨eventDelHeaderVal_wellFormed flags.wf name val, flags.uniq⟩
  | rename name newName => exact ⟨eventRenameHeader_wellFormed flags.wf name newName, flags.uniq⟩
  | merge tomerge =>
    show Flagged (eventMerge e tomerge)
    rw [eventMerge_eq]
    exact run_keeps_all (P := Flagged) (fun _ a flags => applyAddition_flagged flags a) flags _

theorem HeaderOp.unique (flags : Flagged e) (unique : UniqueNames e) (op : HeaderOp) :
    UniqueNames (op.apply e) ↔ NoClash e op := by
  cases op with
  | add a => exact iff_of_true (applyAddition_unique flags unique a) trivial
  | delVal name val =>
    exact iff_of_true (unique.sublist (names_eventDelHeaderVal e name val)) trivial
  | rename name newName => exact eventRenameHeader_unique flags.wf unique name newName
  | merge tomerge =>
    refine iff_of_true ?_ trivial
    show UniqueNames (eventMerge e tomerge)
    rw [eventMerge_eq]
    refine (run_keeps_all (P := fun e => Flagged e ∧ UniqueNames e) (fun e a both => ?_)
      ⟨flags, unique⟩ _).2
    exact ⟨applyAddition_flagged both.1 a, applyAddition_unique both.1 both.2 a⟩

/-- The tail pointer is `NULL` for an empty list, and else the final node, the only one at its
address. -/
def TailPointer (l : Chain Header) : Prop :=
  (l.last = none ↔ l.nodes = []) ∧ ∀ node, l.nodes.getLast? = some node →
    l.last = some node.addr ∧ ∀ other ∈ l.nodes, other.addr = node.addr → other = node

theorem tailPointer_of_linked {l : Chain Header} (linked : l.Linked) : TailPointer l := by
  refine ⟨?_, fun node final => ⟨by rw [linked.tail, final, Option.map_some], ?_⟩⟩
  · rw [linked.tail, Option.map_eq_none_iff, getLast?_eq_none_iff]
  · intro other member same
    exact inj_on_of_nodup_map linked.distinct member (mem_of_getLast? final) same

/-- **Unique headers over a run.** From any event that has the flag, every state the run passes has
each name once and a right tail pointer exactly when the event has each name once and no rename of
the run takes a name that another header has. The tail pointer is right whatever the run does. -/
theorem unique_headers_iff_no_clash {e : Event} (start : UniqStart e) (ops : List HeaderOp) :
    ((∀ done, done <+: ops → UniqueNames (run HeaderOp.apply e done) ∧
        TailPointer (run HeaderOp.apply e done).headers) ↔
          UniqueNames e ∧ Along HeaderOp.apply NoClash e ops) ∧
      ∀ done, done <+: ops → TailPointer (run HeaderOp.apply e done).headers := by
  have flags := start.flagged
  have tail : ∀ done, done <+: ops → TailPointer (run HeaderOp.apply e done).headers := by
    intro done _
    have kept : Flagged (run HeaderOp.apply e done) :=
      run_keeps_all (P := Flagged) (fun _ op flags => HeaderOp.flagged flags op) flags _
    exact tailPointer_of_linked kept.wf.linked
  have always : UniqueNames e → ((∀ done, done <+: ops → UniqueNames (run HeaderOp.apply e done)) ↔
      Along HeaderOp.apply NoClash e ops) :=
    always_iff_along (I := Flagged) (fun _ op flags => HeaderOp.flagged flags op)
      (fun _ op flags unique => HeaderOp.unique flags unique op) flags
  refine ⟨⟨fun both => ?_, ?_⟩, tail⟩
  · have unique : UniqueNames e := (both [] nil_prefix).1
    exact ⟨unique, (always unique).mp fun done begins => (both done begins).1⟩
  · rintro ⟨unique, free⟩ done begins
    exact ⟨(always unique).mpr free done begins, tail done begins⟩

def twoNames : List HeaderOp :=
  [.add ⟨Stack.bottom, ['a'], some ['x']⟩, .add ⟨Stack.bottom, ['b'], some ['y']⟩]

/-- A run with a rename to a free name. -/
theorem unique_headers_free_rename :
    UniqStart (eventCreatePlain .channelData) ∧
      ∀ done, done <+: twoNames ++ [.rename ['a'] ['c']] →
        UniqueNames (run HeaderOp.apply (eventCreatePlain .channelData) done) := by
  have start : UniqStart (eventCreatePlain .channelData) := .set _ (.createPlain .channelData)
  have allowed : Along HeaderOp.apply NoClash (eventCreatePlain .channelData)
      (twoNames ++ [.rename ['a'] ['c']]) := by
    refine ⟨trivial, trivial, Or.inr (Or.inr ?_), trivial⟩
    decide +kernel
  refine ⟨start, fun done begins => ?_⟩
  exact (((unique_headers_iff_no_clash start _).1.mpr ⟨.nil, allowed⟩) done begins).1

/-- **A rename can make a name double**: renaming `a` to `b` beside a header `B`. -/
theorem rename_doubles_name :
    UniqStart (eventCreatePlain .channelData) ∧
      ¬ UniqueNames (run HeaderOp.apply (eventCreatePlain .channelData)
        [.add ⟨Stack.bottom, ['a'], some ['x']⟩, .add ⟨Stack.bottom, ['B'], some ['y']⟩,
          .rename ['a'] ['b']]) :=
  ⟨.set _ (.createPlain .channelData), by decide +kernel⟩

end FreeSwitch
