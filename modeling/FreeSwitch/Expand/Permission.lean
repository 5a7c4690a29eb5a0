/-
**What a permission list hides.**

The value of a variable that the list denies is replaced before anything is done with it, so only
whether the variable is set can be seen in an expansion.

* `expand_eq_of_agree`: the expansions of two channels that agree are equal.
-/

import FreeSwitch.Expand.Room

namespace FreeSwitch

open CString List Option

/-- **Two channels agree** on every variable, up to the values of those denied and set in both. -/
def Agree (settings : ExpandSettings) (ch ch' : ChannelVariables) : Prop :=
  ∀ name idx,
    let value := channelGetVariableDup settings.globals ch name idx
    let value' := channelGetVariableDup settings.globals ch' name idx
    value = value' ∨ (settings.denies name = true ∧ value.isSome ∧ value'.isSome)

def DeniesAll (list : Option PermissionList) : Prop :=
  ∀ name, eventCheckPermissionList list name = false

/-! ### Channels that agree -/

def Hidden (secret : Prop) (value value' : Option Text) : Prop :=
  value = value' ∨ (secret ∧ value.isSome ∧ value'.isSome)

theorem Hidden.or {secret : Prop} {a a' b b' : Option Text} (first : Hidden secret a a')
    (second : Hidden secret b b') : Hidden secret (a.or b) (a'.or b') := by
  rcases first with rfl | ⟨hidden, there, there'⟩
  · cases a with
    | none => simpa using second
    | some value => exact .inl rfl
  · obtain ⟨value, rfl⟩ := isSome_iff_exists.mp there
    obtain ⟨value', rfl⟩ := isSome_iff_exists.mp there'
    exact .inr ⟨hidden, rfl, rfl⟩

def Header.SameBut (secret : Text → Prop) (h h' : Header) : Prop :=
  h = h' ∨ (h.name = h'.name ∧ h.hash = h'.hash ∧ h.array = [] ∧ h'.array = [] ∧
    h.value.isSome ∧ h'.value.isSome ∧ ∀ name, ciEq h.name name = true → secret name)

def Event.SameBut (secret : Text → Prop) (e e' : Event) : Prop :=
  e.body = e'.body ∧ List.Forall₂ (Header.SameBut secret) e.list e'.list

variable {secret : Text → Prop}

theorem Header.SameBut.hasName {h h' : Header} (same : h.SameBut secret h') (name : Text) :
    h.hasName name = h'.hasName name := by
  rcases same with rfl | ⟨named, hash, -⟩
  · rfl
  · unfold Header.hasName
    rw [named, hash]

theorem find_sameBut {hs hs' : List Header} (same : List.Forall₂ (Header.SameBut secret) hs hs')
    (name : Text) :
    Rel (Header.SameBut secret) (hs.find? (Header.hasName name))
      (hs'.find? (Header.hasName name)) := by
  induction same with
  | nil => exact .none
  | @cons h h' hs hs' first _ ih =>
    rw [find?_cons, find?_cons, ← first.hasName name]
    cases h.hasName name with
    | true => exact .some first
    | false => exact ih

theorem getHeaderIdx_sameBut {e e' : Event} (same : e.SameBut secret e') (name : Text) (idx : Int) :
    Hidden (secret name) (eventGetHeaderIdx e name idx) (eventGetHeaderIdx e' name idx) := by
  obtain ⟨body, headers⟩ := same
  have found := find_sameBut headers name
  unfold eventGetHeaderIdx eventGetHeaderPtr
  generalize first : e.list.find? (Header.hasName name) = header at found
  generalize e'.list.find? (Header.hasName name) = header' at found
  cases found with
  | none => exact .inl (by rw [body])
  | @some h h' related =>
    rcases related with rfl | ⟨-, -, array, array', value, value', secret⟩
    · exact .inl rfl
    · have named : ciEq h.name name = true := by
        have has := find?_some first
        unfold Header.hasName at has
        exact (Bool.and_eq_true_iff.mp has).2
      by_cases index : idx > -1
      · exact .inl (by simp [index, array, array'])
      · exact .inr ⟨secret name named, by simpa [index] using value, by simpa [index] using value'⟩

theorem scope_sameBut {es es' : List Event} (same : List.Forall₂ (Event.SameBut secret) es es')
    (name : Text) (idx : Int) :
    Hidden (secret name) (es.findSome? (eventGetHeaderIdx · name idx))
      (es'.findSome? (eventGetHeaderIdx · name idx)) := by
  induction same with
  | nil => exact .inl rfl
  | @cons e e' es es' first _ ih =>
    have step : ∀ (e : Event) (es : List Event),
        (e :: es).findSome? (eventGetHeaderIdx · name idx) =
          (eventGetHeaderIdx e name idx).or (es.findSome? (eventGetHeaderIdx · name idx)) := by
      intro e es
      rw [findSome?_cons]
      cases eventGetHeaderIdx e name idx <;> rfl
    rw [step, step]
    exact (getHeaderIdx_sameBut first name idx).or ih

theorem agree_of_sameBut (settings : ExpandSettings) {ch ch' : ChannelVariables}
    (scope : List.Forall₂ (Event.SameBut fun name => settings.denies name = true)
      ch.scopeVariables ch'.scopeVariables)
    (own : Rel (Event.SameBut fun name => settings.denies name = true) ch.own ch'.own)
    (profile : ch.profile = ch'.profile) : Agree settings ch ch' := by
  intro name idx
  have ownSame : Hidden (settings.denies name = true)
      (ch.own.bind (eventGetHeaderIdx · name idx)) (ch'.own.bind (eventGetHeaderIdx · name idx)) := by
    generalize ch.own = e at own
    generalize ch'.own = e' at own
    cases own with
    | none => exact .inl rfl
    | some same => exact getHeaderIdx_sameBut same name idx
  refine (scope_sameBut scope name idx).or (ownSame.or (.inl ?_))
  rw [profile]

/-! ### Expansions -/

section Agreeing

variable {settings settings' : ExpandSettings} {ch ch' : ChannelVariables}

theorem reference_eq_of_agree (agree : Agree settings ch ch') (noApi : DeniesAll settings.apiList)
    (same : settings' = { settings with apiExecute := settings'.apiExecute })
    (expand : Text → Expansion) (body : Text) (br : Nat) :
    channelReference settings ch expand body br = channelReference settings' ch' expand body br := by
  have lists : settings'.apiList = settings.apiList := by rw [same]
  have globals : settings'.globals = settings.globals := by rw [same]
  have denies : settings'.denies = settings.denies := by
    unfold ExpandSettings.denies
    rw [same]
  unfold channelReference
  cases apiCall br body with
  | some call =>
    have denied : ∀ name, eventCheckPermissionList settings.apiList name = false := noApi
    unfold apiReference
    simp [denied, lists]
  | none =>
    simp only [globals, denies]
    generalize varName (expand body).text = var
    rcases agree var.name var.idx with equal | ⟨denied, there, there'⟩
    · rw [equal]
    · obtain ⟨value, found⟩ := isSome_iff_exists.mp there
      obtain ⟨value', found'⟩ := isSome_iff_exists.mp there'
      rw [found, found', denied]
      rfl

theorem channelExpand_eq_of_agree (agree : Agree settings ch ch')
    (noApi : DeniesAll settings.apiList)
    (same : settings' = { settings with apiExecute := settings'.apiExecute }) (left : Nat) :
    channelExpand settings ch left = channelExpand settings' ch' left := by
  induction left with
  | zero => rfl
  | succ left ih =>
    funext input
    have reference : (fun _ : Bool => channelReference settings ch (channelExpand settings ch left)) =
        fun _ => channelReference settings' ch' (channelExpand settings' ch' left) := by
      funext global body br
      rw [ih]
      exact reference_eq_of_agree agree noApi same _ body br
    rw [channelExpand, channelExpand, reference]

end Agreeing

/-- **Nothing but the permitted is seen**: with an API list that denies everything, two channels
that agree up to denied values have equal expansions, whatever their sessions answer to an API. -/
theorem expand_eq_of_agree (settings : ExpandSettings) (ch ch' : ChannelVariables)
    (noApi : DeniesAll settings.apiList) (agree : Agree settings ch ch')
    (execute : Text → Text → Option Text) (input : Text) (recur : Nat) :
    channelExpandVariablesCheck settings ch input recur =
      channelExpandVariablesCheck { settings with apiExecute := execute } ch' input recur :=
  congrFun (channelExpand_eq_of_agree agree noApi rfl (101 - recur)) input

/-- A list with one header, `name: deny`, that permits everything else. -/
def denyOne (name : Text) : PermissionList :=
  ⟨eventAddHeaderString (eventCreatePlain .channelData) Stack.bottom name (some "deny"), true⟩

/-- Two channels that differ in the denied `x`. -/
theorem expand_eq_of_agree_secret :
    let settings : ExpandSettings := { permissive with
      varList := some (denyOne ['x'])
      apiList := some ⟨eventCreatePlain .channelData, false⟩ }
    let ch := oneVariable "one"
    let ch' := oneVariable "another"
    DeniesAll settings.apiList ∧ Agree settings ch ch' ∧
      channelExpandVariablesCheck settings ch "$\x7bx:1\x7d" 0 =
        channelExpandVariablesCheck settings ch' "$\x7bx:1\x7d" 0 := by
  intro settings ch ch'
  have noApi : DeniesAll settings.apiList := fun _ => rfl
  have denied : ∀ name, ciEq ['x'] name = true → settings.denies name = true := by
    intro name named
    have list : (denyOne ['x']).event.list = [⟨['x'], some "deny", [], ciHash ['x']⟩] := by
      decide +kernel
    have found : eventGetHeader (denyOne ['x']).event name = some "deny" := by
      simp [eventGetHeader, eventGetHeaderIdx, eventGetHeaderPtr, list, Header.hasName, named,
        ciHash_congr named]
    simp [ExpandSettings.denies, eventCheckPermissionList, settings, list, found]
  have agree : Agree settings ch ch' := by
    have headers : ch.own.map Event.list = some [⟨['x'], some "one", [], ciHash ['x']⟩] ∧
        ch'.own.map Event.list = some [⟨['x'], some "another", [], ciHash ['x']⟩] := by
      decide +kernel
    have bodies : ch.own.map Event.body = ch'.own.map Event.body := by decide +kernel
    refine agree_of_sameBut settings .nil (.some ⟨some.inj bodies, ?_⟩) rfl
    rw [some.inj headers.1, some.inj headers.2]
    exact .cons (.inr ⟨rfl, rfl, rfl, rfl, rfl, rfl, denied⟩) .nil
  exact ⟨noApi, agree, expand_eq_of_agree settings ch ch' noApi agree _ _ 0⟩

end FreeSwitch
