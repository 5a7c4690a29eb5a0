/-
**What a CIDR text adds to a network list.**

A text with commas stands for several rules, and each piece is taken on its own: a piece that is
refused does not take the others back, and the call reports the failure. Of a piece the code checks
that there is a `/` and that the length is in the range of its family; the family is IPv6 where the
piece has a colon.

* `RefusedCidr`, `ValidCidr`: the pieces that give no rule, and those that give the rule they name;
* **`cidr_pieces_added`**: what a call adds, what it returns, and that none of its rules decides
  about an address of the other family.
-/

import FreeSwitch.Acl.NetworkList

namespace FreeSwitch

open AclStatus CString List NetworkList Option

/-! ### The pieces of a text -/

/-- The texts that `switch_network_list_add_cidr_token` takes one after another. -/
def cidrPieces (text : Text) : Option (List Text) :=
  if ',' ∈ text then separateString text ',' 32 else some [text]

def familyOf (piece : Text) : Family := if ':' ∈ piece then .inet6 else .inet

def Family.width : Family → Nat
  | .inet6 => 128
  | _ => 32

def cidrParts (piece : Text) : Option (Text × Int) :=
  match cut '/' (snprintf 127 piece) with
  | (_, none) => none
  | (host, some bits) => some (host, atoi bits)

/-- There is no `/`, or the length is out of range. -/
def RefusedCidr (piece : Text) : Prop :=
  ∀ host bits, cidrParts piece = some (host, bits) → bits < 0 ∨ (familyOf piece).width < bits

def ValidCidr (platform : Platform) (piece : Text) (host : Text) (bits : Nat) : Prop :=
  cidrParts piece = some (host, (bits : Int)) ∧ bits ≤ (familyOf piece).width ∧
    if familyOf piece = .inet6 then (platform.pton6 host).isSome = true
    else (platform.pton4 host).isSome = true

structure RuleOf (platform : Platform) (ok : Bool) (token piece host : Text) (bits : Nat)
    (node : NetworkNode) : Prop where
  family : node.family = familyOf piece
  address4 : familyOf piece = .inet → platform.pton4 host = some node.ip.v4
  address6 : familyOf piece = .inet6 → platform.pton6 host = some node.ip.v6
  bits : node.bits = bits
  ok : node.ok = ok
  token : node.token = if token = [] then none else some token

structure PieceOutcome (platform : Platform) (ok : Bool) (token piece : Text)
    (added : Option NetworkNode) : Prop where
  refused : RefusedCidr piece → added = none
  valid : ∀ host bits, ValidCidr platform piece host bits →
    ∃ node, added = some node ∧ RuleOf platform ok token piece host bits node
  family : ∀ node, added = some node → node.family = familyOf piece

/-! ### Adding the pieces -/

section Add

variable {platform : Platform} {ok : Bool} {token : Text}

theorem parseCidr_cases (stack : IpT × IpT) (piece : Text) :
    (∃ error, parseCidr platform stack piece = .error error ∧ RefusedCidr piece) ∨
      ∃ ip mask host bits, parseCidr platform stack piece = .ok (ip, mask, bits) ∧
        cidrParts piece = some (host, (bits : Int)) ∧ bits ≤ (familyOf piece).width ∧
        (familyOf piece = .inet → ip.v4 = (platform.pton4 host).getD stack.1.v4) ∧
        (familyOf piece = .inet6 → ip.v6 = (platform.pton6 host).getD stack.1.v6) := by
  unfold parseCidr RefusedCidr cidrParts
  rcases cut '/' (snprintf 127 piece) with ⟨host, _ | bitStr⟩
  · exact .inl ⟨-1, rfl, nofun⟩
  dsimp only
  by_cases colon : ':' ∈ piece
  · have family : familyOf piece = .inet6 := if_pos colon
    rw [if_pos colon, family]
    by_cases range : atoi bitStr < 0 ∨ 128 < atoi bitStr
    · rw [if_pos range]
      refine .inl ⟨-2, rfl, ?_⟩
      rintro _ _ ⟨⟩
      exact range
    · rw [if_neg range]
      refine .inr ⟨_, _, host, _, rfl, ?_, ?_, nofun, fun _ => rfl⟩
      · rw [Int.toNat_of_nonneg (by omega)]
      · change _ ≤ 128
        omega
  · have family : familyOf piece = .inet := if_neg colon
    rw [if_neg colon, family]
    by_cases range : atoi bitStr < 0 ∨ 32 < atoi bitStr
    · rw [if_pos range]
      refine .inl ⟨-2, rfl, ?_⟩
      rintro _ _ ⟨⟩
      exact range
    · rw [if_neg range]
      refine .inr ⟨_, _, host, _, rfl, ?_, ?_, fun _ => rfl, nofun⟩
      · rw [Int.toNat_of_nonneg (by omega)]
      · change _ ≤ 32
        omega

variable (platform ok token) in
theorem performAdd_spec (stack : IpT × IpT) (list : NetworkList) (piece : Text) :
    ∃ added, PieceOutcome platform ok token piece added ∧
      list.performAddCidrToken platform stack piece ok token =
        (⟨added.toList ++ list.nodes, list.defaultType⟩,
          if added = none then .generr else .success) := by
  unfold performAddCidrToken
  rcases parseCidr_cases stack piece with ⟨error, failed, refused⟩ |
      ⟨ip, mask, host, bits, parsed, parts, range, address4, address6⟩
  · refine ⟨none, ⟨fun _ => rfl, fun host bits valid => ?_, nofun⟩, ?_⟩
    · have outside := refused host bits valid.1
      have inside := valid.2.1
      omega
    · rw [failed]
      rfl
  · rw [parsed]
    refine ⟨some _, ⟨fun refused => ?_, fun host' bits' valid => ⟨_, rfl, ?_⟩, ?_⟩, rfl⟩
    · have outside := refused host bits parts
      omega
    · obtain ⟨parts', -, known⟩ := valid
      obtain ⟨rfl, same⟩ := Prod.mk.inj (some.inj (parts'.symm.trans parts))
      refine ⟨rfl, fun family => ?_, fun family => ?_, (Int.ofNat.inj same).symm, rfl, rfl⟩
      · rw [if_neg (by rw [family]; decide)] at known
        obtain ⟨address, found⟩ := isSome_iff_exists.mp known
        rw [address4 family, found]
        rfl
      · rw [if_pos family] at known
        obtain ⟨address, found⟩ := isSome_iff_exists.mp known
        rw [address6 family, found]
        rfl
    · rintro node ⟨⟩
      rfl

theorem addPieces_spec (held : Nat → IpT × IpT) (i : Nat) (pieces : List Text)
    (list : NetworkList) (status : AclStatus) :
    ∃ added : List (Option NetworkNode),
      List.Forall₂ (PieceOutcome platform ok token) pieces added ∧
        addPieces platform held ok token i pieces (list, status) =
          (⟨added.reduceOption.reverse ++ list.nodes, list.defaultType⟩,
            if none ∈ added then .generr else status) := by
  induction pieces generalizing i list status with
  | nil => exact ⟨[], .nil, rfl⟩
  | cons piece pieces ih =>
    obtain ⟨first, outcome, added⟩ := performAdd_spec platform ok token (held i) list piece
    rw [addPieces, added]
    obtain ⟨rest, outcomes, more⟩ := ih (i + 1) ⟨first.toList ++ list.nodes, list.defaultType⟩
      (if (if first = none then generr else success) = success
        then status else if first = none then generr else success)
    refine ⟨first :: rest, .cons outcome outcomes, more.trans ?_⟩
    cases first with
    | none => simp
    | some node => simp [reduceOption_cons_of_some]

end Add

/-! ### The other family -/

theorem walk_skips {other : Family} {node : NetworkNode} (skipped : node.family = other)
    (before after : List NetworkNode) (defaultType : Bool) (test : NetworkNode → Bool)
    (token : Option Text) :
    NetworkList.walk ⟨before ++ node :: after, defaultType⟩ other test token =
      NetworkList.walk ⟨before ++ after, defaultType⟩ other test token := by
  unfold NetworkList.walk
  rw [foldl_append, foldl_append, foldl_cons]
  congr 1
  exact if_pos skipped

/-- The answer about an address of the other family is the one without the rule. -/
structure Separate (node : NetworkNode) : Prop where
  ip6 : node.family = .inet → ∀ before after defaultType ip token,
    validateIp6Token ⟨before ++ node :: after, defaultType⟩ ip token =
      validateIp6Token ⟨before ++ after, defaultType⟩ ip token
  ip4 : node.family = .inet6 → ∀ before after defaultType ip token,
    validateIpToken ⟨before ++ node :: after, defaultType⟩ ip token =
      validateIpToken ⟨before ++ after, defaultType⟩ ip token

theorem separate (node : NetworkNode) : Separate node := by
  constructor
  · intro family before after defaultType ip token
    unfold validateIp6Token
    rw [walk_skips family]
  · intro family before after defaultType ip token
    unfold validateIpToken
    rw [walk_skips family]

-- a rule from a host and a mask is of neither family: here it decides about `::1`
example :
    let list := (addHostMask quads default (.create false) "0.0.0.0"
      "255.0.0.0" true).1
    (list.validateIp6Token ⟨0, fun i => if i = 15 then 1 else 0⟩ none).1 = true := by decide

/-- **What a call adds.** -/
theorem cidr_pieces_added (platform : Platform) (held : Nat → IpT × IpT) (list : NetworkList)
    (text : Text) (ok : Bool) (token : Text) :
    (cidrPieces text = none → ',' ∈ text ∧ ['\\'] <:+ text) ∧
      ∀ pieces, cidrPieces text = some pieces →
        pieces.length ≤ 32 ∧ ∃ added : List (Option NetworkNode),
          List.Forall₂ (PieceOutcome platform ok token) pieces added ∧
            list.addCidrToken platform held text ok token =
              some (⟨added.reduceOption.reverse ++ list.nodes, list.defaultType⟩,
                if none ∈ added then .generr else .success) ∧
            ∀ node, some node ∈ added → Separate node := by
  unfold cidrPieces addCidrToken
  by_cases comma : ',' ∈ text
  · rw [if_pos comma, if_pos comma]
    refine ⟨fun overrun => ⟨comma, separateString_none overrun⟩, fun pieces split => ?_⟩
    obtain ⟨added, outcomes, runs⟩ := addPieces_spec held 0 pieces list .success
    refine ⟨separateString_length split, added, outcomes, ?_, fun node _ => separate node⟩
    rw [split, map_some, runs]
  · rw [if_neg comma, if_neg comma]
    refine ⟨nofun, fun pieces split => ?_⟩
    obtain rfl := some.inj split
    obtain ⟨first, outcome, runs⟩ := performAdd_spec platform ok token (held 0) list text
    refine ⟨by simp, [first], .cons outcome .nil, ?_, fun node _ => separate node⟩
    rw [runs]
    cases first <;> rfl

/-- A call whose second piece is refused. -/
theorem cidr_pieces_added_two :
    cidrPieces "10.0.0.0/8,10.0.0.1".toList = some ["10.0.0.0/8".toList, "10.0.0.1".toList] ∧
      ∃ added : List (Option NetworkNode),
        List.Forall₂ (PieceOutcome quads true []) ["10.0.0.0/8", "10.0.0.1"] added ∧
          (create false).addCidrToken quads (fun _ => default)
              "10.0.0.0/8,10.0.0.1" true [] =
            some (⟨added.reduceOption.reverse ++ [], false⟩,
              if none ∈ added then .generr else .success) := by
  have split : cidrPieces "10.0.0.0/8,10.0.0.1" =
      some ["10.0.0.0/8".toList, "10.0.0.1".toList] := by decide
  obtain ⟨-, added, outcomes, runs, -⟩ := (cidr_pieces_added quads (fun _ => default) (.create false)
    "10.0.0.0/8,10.0.0.1" true []).2 _ split
  exact ⟨split, added, outcomes, runs⟩

/-- One call adds two rules, and another fails but has added one. -/
theorem comma_adds_several :
    (∃ list, (create false).addCidrToken quads (fun _ => default)
        "10.0.0.0/8,10.1.0.0/16" true [] = some (list, .success) ∧ list.nodes.length = 2) ∧
      ∃ list, (create false).addCidrToken quads (fun _ => default)
        "10.0.0.0/8,10.0.0.1" true [] = some (list, .generr) ∧ list.nodes.length = 1 := by
  refine ⟨⟨_, rfl, ?_⟩, _, rfl, ?_⟩
  · decide
  · decide

end FreeSwitch
