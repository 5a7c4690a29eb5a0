/-
**Longest prefix match on IPv4 rules.**

A list of IPv4 rules is meant to answer with the longest rule that contains the address, the newest
one among equals, and with its default where no rule contains it. The walk keeps a rule only when it
is longer than the 0 bits it starts with, so a rule of length 0 never decides. And where shift
counts are taken modulo 32, a rule of length 32 has no mask, and then the rule `0.0.0.0/32` passes
for every address.

* **`longest_prefix_iff`**: where the answer is right, and does not depend on the order.
-/

import FreeSwitch.Acl.NetworkList

namespace FreeSwitch

open CString List Longest NetworkList Subnet

/-! ### Rules -/

/-- `a.b.c.d/n`, short enough for the buffer it is copied to. -/
def WellFormedCidr (platform : Platform) (text : Text) (net : Subnet 32) : Prop :=
  ∃ host bits, text = host ++ '/' :: bits ∧ '/' ∉ host ∧ ',' ∉ text ∧ ':' ∉ text ∧
    text.length < 127 ∧ platform.pton4 host = some net.address ∧ atoi bits = net.length

/-- A call of `switch_network_list_add_cidr_token` with a well-formed text. -/
structure CidrRule (platform : Platform) where
  text : Text
  ok : Bool
  token : Text
  held : Nat → IpT × IpT
  net : Subnet 32
  wellFormed : WellFormedCidr platform text net

namespace CidrRule

variable {platform : Platform}

def node (rule : CidrRule platform) : NetworkNode :=
  { ip := { (rule.held 0).1 with v4 := rule.net.address }
    mask := { (rule.held 0).2 with v4 := platform.mask4 rule.net.length }
    bits := rule.net.length
    family := .inet
    ok := rule.ok
    token := if rule.token = [] then none else some rule.token
    str := rule.text }

theorem adds (rule : CidrRule platform) (list : NetworkList) :
    list.addCidrToken platform rule.held rule.text rule.ok rule.token =
      some ({ list with nodes := rule.node :: list.nodes }, .success) := by
  obtain ⟨host, bits, shape, noSlash, noComma, noColon, short, address, length⟩ := rule.wellFormed
  have parsed : parseCidr platform (rule.held 0) rule.text =
      .ok (rule.node.ip, rule.node.mask, rule.net.length) := by
    have low : ¬ ((rule.net.length : Int) < 0 ∨ (32 : Int) < rule.net.length) := by
      have := rule.net.fits
      omega
    have parts : cut '/' (snprintf 127 rule.text) = (host, some bits) := by
      rw [snprintf_eq short, shape]
      exact cut_append_cons noSlash bits
    unfold parseCidr
    rw [parts]
    dsimp only
    rw [if_neg noColon, length, if_neg low, address]
    rfl
  unfold addCidrToken performAddCidrToken
  rw [if_neg noComma, parsed]
  rw [if_neg noColon]
  rfl

end CidrRule

def NetworkList.addRules {platform : Platform} (list : NetworkList)
    (rules : List (CidrRule platform)) : Option NetworkList :=
  rules.foldlM (fun list rule =>
    (list.addCidrToken platform rule.held rule.text rule.ok rule.token).map Prod.fst) list

theorem addRules_eq {platform : Platform} (rules : List (CidrRule platform)) (list : NetworkList) :
    list.addRules rules =
      some { list with nodes := (rules.map CidrRule.node).reverse ++ list.nodes } := by
  induction rules generalizing list with
  | nil => rfl
  | cons rule rules ih =>
    unfold addRules at ih ⊢
    rw [foldlM_cons, rule.adds]
    refine (ih _).trans ?_
    simp

/-! ### What the list is for -/

section Purpose

variable {platform : Platform}

variable (rules : List (CidrRule platform))

def Wins (ip : BitVec 32) (rule : CidrRule platform) : Prop :=
  rule.net.Contains ip ∧ ∃ older newer, rules = older ++ rule :: newer ∧
    (∀ other ∈ older, other.net.Contains ip → other.net.length ≤ rule.net.length) ∧
      ∀ other ∈ newer, other.net.Contains ip → other.net.length < rule.net.length

def Decided (defaultType : Bool) (ip : BitVec 32) (answer : Bool) : Prop :=
  (∀ rule, Wins rules ip rule → answer = rule.ok) ∧
    ((∀ rule ∈ rules, ¬ rule.net.Contains ip) → answer = defaultType)

/-- A rule with a length contains the address, if any rule does; and where shift counts wrap, a
newer rule for the address alone follows each `0.0.0.0/32`. -/
def Covered (wraps : Bool) (nets : List (Subnet 32)) (ip : BitVec 32) : Prop :=
  ((∃ net ∈ nets, net.Contains ip) → ∃ net ∈ nets, net.Contains ip ∧ 0 < net.length) ∧
    (wraps = true → ip ≠ 0 → ∀ older net newer, nets = older ++ net :: newer →
      net.address = 0 → net.length = 32 → ∃ own ∈ newer, own.address = ip ∧ own.length = 32)

/-! ### What the walk does -/

def CidrRule.Passes (ip : BitVec 32) (rule : CidrRule platform) : Bool :=
  testSubnet ip rule.net.address (platform.mask4 rule.net.length)

def kept (ip : BitVec 32) : Option (CidrRule platform) :=
  longest (fun rule => rule.net.length) (CidrRule.Passes ip) rules.reverse

theorem validate_eq (defaultType : Bool) (ip : BitVec 32) (token : Option Text) :
    (validateIpToken ⟨(rules.map CidrRule.node).reverse, defaultType⟩ ip token).1 =
      (kept rules ip).elim defaultType CidrRule.ok := by
  unfold validateIpToken
  rw [walk_eq, ← map_reverse, longest_map]
  change (AclVerdict.of _ ((kept rules ip).map CidrRule.node)).ok = _
  cases kept rules ip <;> rfl

variable {ip : BitVec 32} {rule : CidrRule platform} {rules : List (CidrRule platform)}

/-- **The test of a rule**: its subnet has the address, or it is `0.0.0.0/32` and shift counts wrap.
-/
theorem passes_iff (long : 0 < rule.net.length) (ip : BitVec 32) :
    rule.Passes ip = true ↔ rule.net.Contains ip ∨
      (platform.wraps = true ∧ rule.net.length = 32 ∧ rule.net.address = 0) := by
  have fits := rule.net.fits
  unfold CidrRule.Passes testSubnet Platform.mask4
  by_cases lost : platform.wraps = true ∧ rule.net.length = 32
  · -- no bit of the mask is left, and the walk compares the addresses themselves
    have zero : highBits 32 (if platform.wraps then rule.net.length % 32 else rule.net.length)
        = 0 := by
      rw [if_pos lost.1, lost.2]
      decide
    rw [zero, if_neg (by simp)]
    by_cases any : rule.net.address = 0
    · simp [any, lost]
    · have positive : ¬ rule.net.address = 0#32 := any
      simp [positive, Contains, lost.2]
  · have length : (if platform.wraps then rule.net.length % 32 else rule.net.length) =
        rule.net.length := by
      split
      next wraps => exact Nat.mod_eq_of_lt (by have := mt (And.intro wraps) lost; omega)
      next => rfl
    rw [length, if_pos (highBits_ne_zero long (by decide)), decide_eq_true_iff,
      and_highBits_eq_iff fits]
    exact ⟨.inl, fun either => either.resolve_right fun wrapped => lost ⟨wrapped.1, wrapped.2.1⟩⟩

theorem wins_iff_leads :
    Wins rules ip rule ↔ Leads (fun rule : CidrRule platform => rule.net.length)
      (fun rule => decide (rule.net.Contains ip)) rules.reverse rule := by
  unfold Wins Leads
  constructor
  · rintro ⟨inside, older, newer, rfl, notLonger, shorter⟩
    refine ⟨by simpa using inside, newer.reverse, older.reverse, by simp, ?_, ?_⟩
    · exact fun other member hits =>
        shorter other (mem_reverse.mp member) (of_decide_eq_true hits)
    · exact fun other member hits =>
        notLonger other (mem_reverse.mp member) (of_decide_eq_true hits)
  · rintro ⟨inside, before, after, split, shorter, notLonger⟩
    refine ⟨of_decide_eq_true inside, after.reverse, before.reverse, ?_, ?_, ?_⟩
    · rw [← reverse_reverse rules, split]
      simp
    · exact fun other member hits =>
        notLonger other (mem_reverse.mp member) (decide_eq_true hits)
    · exact fun other member hits =>
        shorter other (mem_reverse.mp member) (decide_eq_true hits)

theorem Wins.mem (wins : Wins rules ip rule) : rule ∈ rules :=
  mem_reverse.mp (wins_iff_leads.mp wins).mem

theorem Wins.longest {other : CidrRule platform} (wins : Wins rules ip rule)
    (member : other ∈ rules) (inside : other.net.Contains ip) :
    other.net.length ≤ rule.net.length :=
  (wins_iff_leads.mp wins).largest (mem_reverse.mpr member) (decide_eq_true inside)

theorem Wins.unique {rule' : CidrRule platform} (wins : Wins rules ip rule)
    (wins' : Wins rules ip rule') :
    rule = rule' :=
  (wins_iff_leads.mp wins).unique (wins_iff_leads.mp wins')

theorem exists_wins (member : rule ∈ rules) (inside : rule.net.Contains ip) :
    ∃ winner, Wins rules ip winner := by
  simp only [wins_iff_leads]
  exact exists_leads (mem_reverse.mpr member) (decide_eq_true inside)

/-! ### Covered lists -/

theorem kept_wins (covered : Covered platform.wraps (rules.map CidrRule.net) ip)
    (long : 0 < rule.net.length)
    (leads : Leads (fun rule : CidrRule platform => rule.net.length) (CidrRule.Passes ip)
      rules.reverse rule) : Wins rules ip rule := by
  obtain ⟨passes, before, after, split, shorter, notLonger⟩ := leads
  have inside : rule.net.Contains ip := by
    rcases (passes_iff long ip).mp passes with inside | ⟨wraps, length, address⟩
    · exact inside
    by_cases zero : ip = 0
    · rw [Contains, address, zero]
    · -- a rule for the address itself is newer, and the walk has met it before
      have order : rules = after.reverse ++ rule :: before.reverse := by
        rw [← reverse_reverse rules, split]
        simp
      obtain ⟨net, netMember, own, ownLength⟩ := covered.2 wraps zero
        (after.reverse.map CidrRule.net) rule.net (before.reverse.map CidrRule.net)
        (by rw [order]; simp) address length
      obtain ⟨newer, member, rfl⟩ := mem_map.mp netMember
      have newerPasses : newer.Passes ip = true :=
        (passes_iff (by omega) ip).mpr (.inl (by rw [Contains, own]))
      have := shorter newer (mem_reverse.mp member) newerPasses
      dsimp only at this
      omega
  refine wins_iff_leads.mpr ⟨decide_eq_true inside, before, after, split, ?_, ?_⟩
  · intro other member hits
    rcases Nat.eq_zero_or_pos other.net.length with zero | otherLong
    · dsimp only
      omega
    · exact shorter other member ((passes_iff otherLong ip).mpr (.inl (of_decide_eq_true hits)))
  · intro other member hits
    rcases Nat.eq_zero_or_pos other.net.length with zero | otherLong
    · dsimp only
      omega
    · exact notLonger other member ((passes_iff otherLong ip).mpr (.inl (of_decide_eq_true hits)))

theorem kept_of_covered (covered : Covered platform.wraps (rules.map CidrRule.net) ip) :
    (kept rules ip = none ∧ ∀ rule ∈ rules, ¬ rule.net.Contains ip) ∨
      ∃ rule, kept rules ip = some rule ∧ Wins rules ip rule := by
  rcases longest_spec (fun rule : CidrRule platform => rule.net.length)
    (CidrRule.Passes ip) rules.reverse with ⟨nothing, zero⟩ | ⟨rule, found, long, leads⟩
  · refine .inl ⟨nothing, fun rule member inside => ?_⟩
    obtain ⟨net, netMember, netInside, netLong⟩ :=
      covered.1 ⟨rule.net, mem_map_of_mem member, inside⟩
    obtain ⟨other, member, rfl⟩ := mem_map.mp netMember
    have := zero other (mem_reverse.mpr member) ((passes_iff netLong ip).mpr (.inl netInside))
    omega
  · exact .inr ⟨rule, found, kept_wins covered long leads⟩

theorem decided_of_covered (covered : Covered platform.wraps (rules.map CidrRule.net) ip)
    (defaultType : Bool) :
    Decided rules defaultType ip ((kept rules ip).elim defaultType CidrRule.ok) := by
  rcases kept_of_covered covered with ⟨nothing, outside⟩ | ⟨rule, found, wins⟩
  · rw [nothing]
    exact ⟨fun rule wins => absurd wins.1 (outside rule wins.mem), fun _ => rfl⟩
  · rw [found]
    refine ⟨fun other otherWins => congrArg CidrRule.ok (wins.unique otherWins), fun outside => ?_⟩
    exact absurd wins.1 (outside rule wins.mem)

/-! ### Lists that are not covered -/

def labelled (ip : BitVec 32) (rules : List (CidrRule platform)) : List (CidrRule platform) :=
  rules.map fun rule => { rule with ok := decide (rule.net.Contains ip) }

theorem labelled_nets (ip : BitVec 32) (rules : List (CidrRule platform)) :
    (labelled ip rules).map CidrRule.net = rules.map CidrRule.net := by
  rw [labelled, map_map]
  rfl

theorem kept_labelled (ip : BitVec 32) (rules : List (CidrRule platform)) (defaultType : Bool) :
    (kept (labelled ip rules) ip).elim defaultType CidrRule.ok =
      (kept rules ip).elim defaultType fun rule => decide (rule.net.Contains ip) := by
  unfold kept labelled
  rw [← map_reverse, longest_map]
  change ((kept rules ip).map _).elim _ _ = _
  unfold kept
  cases longest _ _ rules.reverse <;> rfl

theorem decided_labelled {answer : Bool} {defaultType : Bool}
    (decided : Decided (labelled ip rules) defaultType ip answer)
    (inside : ∃ net ∈ rules.map CidrRule.net, net.Contains ip) : answer = true := by
  rw [← labelled_nets ip] at inside
  obtain ⟨net, netMember, inside⟩ := inside
  obtain ⟨rule, member, rfl⟩ := mem_map.mp netMember
  obtain ⟨winner, wins⟩ := exists_wins member inside
  obtain ⟨original, -, rfl⟩ := mem_map.mp wins.mem
  rw [decided.1 _ wins]
  exact decide_eq_true wins.1

theorem covered_of_decided (decided : ∀ defaultType, Decided (labelled ip rules) defaultType ip
      ((kept (labelled ip rules) ip).elim defaultType CidrRule.ok)) :
    Covered platform.wraps (rules.map CidrRule.net) ip := by
  simp only [kept_labelled] at decided
  have spec := longest_spec (fun rule : CidrRule platform => rule.net.length)
    (CidrRule.Passes ip) rules.reverse
  constructor
  · intro inside
    have allowed := decided_labelled (decided false) inside
    rcases spec with ⟨nothing, -⟩ | ⟨rule, found, long, leads⟩
    · rw [kept, nothing] at allowed
      cases allowed
    · rw [kept, found] at allowed
      exact ⟨rule.net, mem_map_of_mem (mem_reverse.mp leads.mem),
        of_decide_eq_true allowed, long⟩
  · intro wraps nonzero older net newer split address length
    have allowed :
        (kept rules ip).elim true (fun rule => decide (rule.net.Contains ip)) = true := by
      by_cases inside : ∃ net ∈ rules.map CidrRule.net, net.Contains ip
      · exact decided_labelled (decided true) inside
      · refine (decided true).2 fun rule member contains => inside ⟨rule.net, ?_, contains⟩
        rw [← labelled_nets ip]
        exact mem_map_of_mem member
    obtain ⟨olderRules, rest, rfl, rfl, tail⟩ := map_eq_append_iff.mp split
    obtain ⟨lost, newerRules, rfl, rfl, rfl⟩ := map_eq_cons_iff.mp tail
    have lostPasses : lost.Passes ip = true :=
      (passes_iff (by omega) ip).mpr (.inr ⟨wraps, length, address⟩)
    rcases spec with ⟨-, zero⟩ | ⟨rule, found, long, leads⟩
    · have := zero lost (by simp) lostPasses
      omega
    · rw [kept, found] at allowed
      have inside : rule.net.Contains ip := of_decide_eq_true allowed
      have full : rule.net.length = 32 := by
        have large := leads.largest (y := lost) (by simp) lostPasses
        have := rule.net.fits
        omega
      have own : rule.net.address = ip := by
        rw [Contains, full] at inside
        simpa using inside
      have order : (olderRules ++ lost :: newerRules).reverse =
          newerRules.reverse ++ lost :: olderRules.reverse := by simp
      have early := leads.mem_before order lostPasses (by omega)
        (fun same => nonzero (by rw [← own, same, address]))
      exact ⟨rule.net, mem_map_of_mem (mem_reverse.mp early), own, full⟩

/-! ### The order of the rules -/

theorem Wins.perm {reordered : List (CidrRule platform)} {rule' : CidrRule platform}
    (perm : rules.Perm reordered) (distinct : rules.Pairwise fun a b => ¬ a.net.Same b.net)
    (wins : Wins rules ip rule) (wins' : Wins reordered ip rule') : rule = rule' := by
  have member' : rule' ∈ rules := perm.mem_iff.mpr wins'.mem
  have length : rule.net.length = rule'.net.length :=
    le_antisymm (wins'.longest (perm.mem_iff.mp wins.mem) wins.1) (wins.longest member' wins'.1)
  by_contra other
  have symmetric : Std.Symm fun a b : CidrRule platform => ¬ a.net.Same b.net :=
    ⟨fun a b differ same => differ same.symm⟩
  exact distinct.forall wins.mem member' other (same_of_contains length wins.1 wins'.1)

theorem kept_perm {reordered : List (CidrRule platform)} (perm : rules.Perm reordered)
    (distinct : rules.Pairwise fun a b => ¬ a.net.Same b.net)
    (covered : Covered platform.wraps (rules.map CidrRule.net) ip)
    (covered' : Covered platform.wraps (reordered.map CidrRule.net) ip) :
    kept rules ip = kept reordered ip := by
  rcases kept_of_covered covered with ⟨nothing, outside⟩ | ⟨rule, found, wins⟩ <;>
    rcases kept_of_covered covered' with ⟨nothing', outside'⟩ | ⟨rule', found', wins'⟩
  · rw [nothing, nothing']
  · exact absurd wins'.1 (outside rule' (perm.mem_iff.mpr wins'.mem))
  · exact absurd wins.1 (outside' rule (perm.mem_iff.mp wins.mem))
  · rw [found, found', wins.perm perm distinct wins']

end Purpose

/-- **Longest prefix match.** For the rules and the address, the answer is that of the longest rule
that contains the address and is the newest of its length, or the default, whatever the rules allow
or deny, exactly when the list is `Covered`; and the order of distinct subnets does not matter where
it is covered in both orders. -/
theorem longest_prefix_iff (platform : Platform) (rules : List (CidrRule platform))
    (ip : BitVec 32) :
    ((∀ (defaultType : Bool) (token : Option Text) (relabelled : List (CidrRule platform)),
        relabelled.map CidrRule.net = rules.map CidrRule.net →
          ∃ list, (create defaultType).addRules relabelled = some list ∧
            Decided relabelled defaultType ip (list.validateIpToken ip token).1) ↔
      Covered platform.wraps (rules.map CidrRule.net) ip) ∧
    ∀ (defaultType : Bool) (token : Option Text) (reordered : List (CidrRule platform)),
      rules.Perm reordered → rules.Pairwise (fun a b => ¬ a.net.Same b.net) →
        Covered platform.wraps (rules.map CidrRule.net) ip →
          Covered platform.wraps (reordered.map CidrRule.net) ip →
            ∃ list list', (create defaultType).addRules rules = some list ∧
              (create defaultType).addRules reordered = some list' ∧
                (list.validateIpToken ip token).1 = (list'.validateIpToken ip token).1 := by
  have built : ∀ (defaultType : Bool) (rules : List (CidrRule platform)),
      (create defaultType).addRules rules =
        some ⟨(rules.map CidrRule.node).reverse, defaultType⟩ := by
    intro defaultType rules
    rw [addRules_eq, create, append_nil]
  refine ⟨⟨fun right => covered_of_decided fun defaultType => ?_, fun covered => ?_⟩, ?_⟩
  · obtain ⟨list, adds, decided⟩ :=
      right defaultType none (labelled ip rules) (labelled_nets ip rules)
    rw [built] at adds
    obtain rfl := Option.some.inj adds
    rwa [validate_eq] at decided
  · intro defaultType token relabelled same
    refine ⟨_, built _ _, ?_⟩
    rw [validate_eq]
    exact decided_of_covered (same ▸ covered) defaultType
  · intro defaultType token reordered perm distinct covered covered'
    refine ⟨_, _, built _ _, built _ _, ?_⟩
    rw [validate_eq, validate_eq, kept_perm perm distinct covered covered']

/-- `10.0.0.0/8` denied and then `10.1.0.0/16` allowed. -/
def tenNets : List (CidrRule quads) :=
  [{ text := "10.0.0.0/8", ok := false, token := [], held := fun _ => default,
     net := ⟨0x0A000000, 8, by decide⟩,
     wellFormed := ⟨"10.0.0.0", "8", by decide⟩ },
   { text := "10.1.0.0/16", ok := true, token := [], held := fun _ => default,
     net := ⟨0x0A010000, 16, by decide⟩,
     wellFormed := ⟨"10.1.0.0", "16", by decide⟩ }]

theorem covered_of_mem {wraps : Bool} {nets : List (Subnet 32)} {ip : BitVec 32} {net : Subnet 32}
    (member : net ∈ nets) (inside : net.Contains ip) (long : 0 < net.length)
    (proper : ∀ other ∈ nets, other.length ≠ 32) : Covered wraps nets ip := by
  refine ⟨fun _ => ⟨net, member, inside, long⟩, fun _ _ older other newer split _ full => ?_⟩
  exact absurd full (proper other (by rw [split]; simp))

/-- The two rules decide about `10.1.2.3` in the same way in both orders. -/
theorem longest_prefix_tenNets : Covered true (tenNets.map CidrRule.net) 0x0A010203 ∧
      ∃ list list', (create false).addRules tenNets = some list ∧
        (create false).addRules tenNets.reverse = some list' ∧
          (list.validateIpToken 0x0A010203 none).1 = (list'.validateIpToken 0x0A010203 none).1 := by
  have covered : Covered true (tenNets.map CidrRule.net) 0x0A010203 :=
    covered_of_mem (show (⟨0x0A010000, 16, by decide⟩ : Subnet 32) ∈ _ by decide) (by decide)
      (by decide) (by decide)
  have covered' : Covered true (tenNets.reverse.map CidrRule.net) 0x0A010203 :=
    covered_of_mem (show (⟨0x0A010000, 16, by decide⟩ : Subnet 32) ∈ _ by decide) (by decide)
      (by decide) (by decide)
  refine ⟨covered, (longest_prefix_iff quads tenNets 0x0A010203).2 false none tenNets.reverse
    (reverse_perm _).symm ?_ covered covered'⟩
  refine pairwise_pair.mpr fun same => ?_
  exact absurd same.1 (by decide)

/-- The rule `0.0.0.0/0`, allowed. -/
def everywhere : CidrRule quads :=
  { text := "0.0.0.0/0", ok := true, token := [], held := fun _ => default,
    net := ⟨0, 0, by decide⟩, wellFormed := ⟨"0.0.0.0", "0", by decide⟩ }

/-- The list that denies by default and allows `0.0.0.0/0` denies `10.1.2.3`. -/
theorem slash_zero_ignored : Wins [everywhere] 0x0A010203 everywhere ∧ everywhere.ok = true ∧
      ∃ list, (create false).addRules [everywhere] = some list ∧
        (list.validateIpToken 0x0A010203 none).1 = false := by
  refine ⟨⟨by decide, [], [], rfl, nofun, nofun⟩, rfl, _, rfl, ?_⟩
  decide

end FreeSwitch
