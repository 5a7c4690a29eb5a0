/-
**The network lists of `switch_utils.c`.**

An access list is a chain of rules, the newest first, and an answer for the addresses that no rule
decides. Rules come from CIDR texts (`switch_network_list_add_cidr_token`) or from a host and a mask
(`switch_network_list_add_host_mask`); the two validators walk the chain.

`inet_pton` is a parameter, and so is what a shift of 32 bits by 32 does, which C leaves open.
Neither caller of `inet_pton` looks at its result: after a failure the address is what the stack
held, another parameter of each call.
-/

import FreeSwitch.Lib.Longest
import FreeSwitch.Utils.Separate

namespace FreeSwitch

open CString Longest

/-! ### Addresses -/

abbrev In6 := Fin 16 → BitVec 8

/-- `ip_t`, a union: what its memory reads as, in host order for `v4`. -/
structure IpT where
  v4 : BitVec 32
  v6 : In6
deriving DecidableEq, Inhabited

/-- `node->family`; a node that nobody has set it for holds 0. -/
inductive Family
  | unspec
  | inet
  | inet6
deriving DecidableEq

/-- `inet_pton` for the two families, whether a shift count is taken modulo 32, and the bytes of a
zeroed `ip_t` whose `v4` has been written. -/
structure Platform where
  pton4 : Text → Option (BitVec 32)
  pton6 : Text → Option In6
  wraps : Bool
  overlay : BitVec 32 → In6

variable (platform : Platform)

/-- `0xFFFFFFFF & ~(0xFFFFFFFF >> bits)`. -/
def Platform.mask4 (bits : Nat) : BitVec 32 :=
  highBits 32 (if platform.wraps then bits % 32 else bits)

/-- The loop over the bytes of an IPv6 mask; `n` bits are still to be set. -/
def mask6 (bits : Nat) : In6 := fun i =>
  let n := bits - 8 * i
  if 8 ≤ n then 0xFF else highBits 8 n

def octet (s : Text) : Option Nat :=
  if s ≠ [] ∧ s.length ≤ 3 ∧ s.all Char.isDigit = true ∧ digits s ≤ 255 then some (digits s)
  else none

/-- `inet_pton` for IPv4. -/
def dottedQuad (host : Text) : Option (BitVec 32) := do
  let (a, some host) := cut '.' host | none
  let (b, some host) := cut '.' host | none
  let (c, some d) := cut '.' host | none
  some (BitVec.ofNat 32 (((← octet a) * 256 + (← octet b)) * 256 + (← octet c)) * 256 +
    BitVec.ofNat 32 (← octet d))

/-- A machine with shift counts modulo 32 and the low byte of a number first, without IPv6 texts. -/
def quads : Platform :=
  { pton4 := dottedQuad
    pton6 := fun _ => none
    wraps := true
    overlay := fun v i => if i.val < 4 then v.extractLsb' (8 * i.val) 8 else 0 }

/-- `switch_parse_cidr`: its error, or the address, the mask and the length; `stack` is what the
variables of the caller hold before. -/
def parseCidr (stack : IpT × IpT) (string : Text) : Except Int (IpT × IpT × Nat) :=
  match cut '/' (snprintf 127 string) with
  | (_, none) => .error (-1)
  | (host, some bitStr) =>
    let bits := atoi bitStr
    if ':' ∈ string then
      if bits < 0 ∨ 128 < bits then .error (-2)
      else .ok ({ stack.1 with v6 := (platform.pton6 host).getD stack.1.v6 },
        { stack.2 with v6 := mask6 bits.toNat }, bits.toNat)
    else
      if bits < 0 ∨ 32 < bits then .error (-2)
      else .ok ({ stack.1 with v4 := (platform.pton4 host).getD stack.1.v4 },
        { stack.2 with v4 := platform.mask4 bits.toNat }, bits.toNat)

/-! ### The list -/

/-- `switch_network_node_t`. -/
structure NetworkNode where
  ip : IpT
  mask : IpT
  bits : Nat
  family : Family
  ok : Bool
  token : Option Text
  str : Text
deriving DecidableEq

/-- `switch_network_list_t`, the head of the chain first. -/
structure NetworkList where
  nodes : List NetworkNode
  defaultType : Bool

inductive AclStatus
  | success
  | generr
deriving DecidableEq

namespace NetworkList

def create (defaultType : Bool) : NetworkList := ⟨[], defaultType⟩

def performAddCidrToken (stack : IpT × IpT) (list : NetworkList) (cidrStr : Text) (ok : Bool)
    (token : Text) : NetworkList × AclStatus :=
  match parseCidr platform stack cidrStr with
  | .error _ => (list, .generr)
  | .ok (ip, mask, bits) =>
    let node : NetworkNode :=
      { ip := ip
        mask := mask
        bits := bits
        family := if ':' ∈ cidrStr then .inet6 else .inet
        ok := ok
        token := if token = [] then none else some token
        str := cidrStr }
    ({ list with nodes := node :: list.nodes }, .success)

/-- The loop over the pieces, from piece `i` on; the status is the last failure's. -/
def addPieces (platform : Platform) (held : Nat → IpT × IpT) (ok : Bool) (token : Text) :
    Nat → List Text → NetworkList × AclStatus → NetworkList × AclStatus
  | _, [], result => result
  | i, piece :: rest, (list, status) =>
    let (list, thisStatus) := list.performAddCidrToken platform (held i) piece ok token
    addPieces platform held ok token (i + 1) rest
      (list, if thisStatus = .success then status else thisStatus)

def addCidrToken (held : Nat → IpT × IpT) (list : NetworkList) (cidrStr : Text) (ok : Bool)
    (token : Text) : Option (NetworkList × AclStatus) :=
  if ',' ∈ cidrStr then
    (separateString cidrStr ',' 32).map fun pieces =>
      addPieces platform held ok token 0 pieces (list, .success)
  else some (list.performAddCidrToken platform (held 0) cidrStr ok token)

/-- How `switch_network_list_add_host_mask` counts the bits of a mask (there in network order, which
has as many). -/
def countBits (mask : BitVec 32) : Nat :=
  let mask := mask - ((mask >>> 1) &&& 0x55555555)
  let mask := (mask &&& 0x33333333) + ((mask >>> 2) &&& 0x33333333)
  ((((mask + (mask >>> 4)) &&& 0xF0F0F0F) * 0x1010101) >>> 24).toNat

/-- `switch_network_list_add_host_mask`: only `v4` of the zeroed node is written, and the family
stays 0. -/
def addHostMask (stack : IpT × IpT) (list : NetworkList) (host maskStr : Text) (ok : Bool) :
    NetworkList × AclStatus :=
  let ip := (platform.pton4 host).getD stack.1.v4
  let mask := (platform.pton4 maskStr).getD stack.2.v4
  let node : NetworkNode :=
    { ip := ⟨ip, platform.overlay ip⟩
      mask := ⟨mask, platform.overlay mask⟩
      bits := countBits mask
      family := .unspec
      ok := ok
      token := none
      str := host ++ ':' :: maskStr }
  ({ list with nodes := node :: list.nodes }, .success)

end NetworkList

/-! ### The validators -/

def testSubnet (ip net mask : BitVec 32) : Bool :=
  if mask ≠ 0 then net &&& mask = ip &&& mask
  else if net ≠ 0 then net = ip
  else true

def in6AndMask (ip mask : In6) : In6 := fun i => ip i &&& mask i

def testv6Subnet (ip net mask : In6) : Bool :=
  if mask ≠ fun _ => 0 then in6AndMask net mask = in6AndMask ip mask
  else if net ≠ fun _ => 0 then net = ip
  else true

/-- The answer of a walk so far, the length of the rule it is from, and that rule's token. -/
structure AclVerdict where
  ok : Bool
  bits : Nat
  token : Option Text

/-- One node of a walk; nodes of the family `other` are passed over. -/
def considerNode (other : Family) (test : NetworkNode → Bool) (found : AclVerdict)
    (node : NetworkNode) : AclVerdict :=
  if node.family = other then found
  else if found.bits < node.bits ∧ test node = true then ⟨node.ok, node.bits, node.token⟩
  else found

variable (list : NetworkList)

namespace NetworkList

def walk (other : Family) (test : NetworkNode → Bool) (token : Option Text) : AclVerdict :=
  list.nodes.foldl (considerNode other test) ⟨list.defaultType, 0, token⟩

/-- `switch_network_list_validate_ip_token`: the answer, and `*token` afterwards. -/
def validateIpToken (ip : BitVec 32) (token : Option Text) : Bool × Option Text :=
  let found := list.walk .inet6 (fun node => testSubnet ip node.ip.v4 node.mask.v4) token
  (found.ok, found.token)

def validateIp6Token (ip : IpT) (token : Option Text) : Bool × Option Text :=
  let found := list.walk .inet (fun node => testv6Subnet ip.v6 node.ip.v6 node.mask.v6) token
  (found.ok, found.token)

end NetworkList

/-! ### What a walk keeps -/

def AclVerdict.of (start : AclVerdict) (kept : Option NetworkNode) : AclVerdict :=
  kept.elim start fun node => ⟨node.ok, node.bits, node.token⟩

def passes (other : Family) (test : NetworkNode → Bool) (node : NetworkNode) : Bool :=
  node.family ≠ other && test node

theorem considerNode_of {other : Family} {test : NetworkNode → Bool} {start : AclVerdict}
    (zero : start.bits = 0) (kept : Option NetworkNode) (node : NetworkNode) :
    considerNode other test (start.of kept) node =
      start.of (better NetworkNode.bits (passes other test) kept node) := by
  have length : (start.of kept).bits = kept.elim 0 NetworkNode.bits := by
    cases kept with
    | none => exact zero
    | some kept => rfl
  unfold considerNode better
  rw [length]
  by_cases skipped : node.family = other
  · rw [if_pos skipped, if_neg (by simp [passes, skipped])]
  · by_cases taken : kept.elim 0 NetworkNode.bits < node.bits ∧ test node = true
    · rw [if_neg skipped, if_pos taken, if_pos ⟨by simp [passes, skipped, taken.2], taken.1⟩]
      rfl
    · rw [if_neg skipped, if_neg taken, if_neg]
      rintro ⟨passed, longer⟩
      exact taken ⟨longer, (Bool.and_eq_true_iff.mp passed).2⟩

theorem walk_eq (other : Family) (test : NetworkNode → Bool) (token : Option Text) :
    list.walk other test token = AclVerdict.of ⟨list.defaultType, 0, token⟩
        (longest NetworkNode.bits (passes other test) list.nodes) := by
  suffices all : ∀ (nodes : List NetworkNode) (kept : Option NetworkNode),
      nodes.foldl (considerNode other test) (AclVerdict.of ⟨list.defaultType, 0, token⟩ kept) =
        AclVerdict.of ⟨list.defaultType, 0, token⟩
          (nodes.foldl (better NetworkNode.bits (passes other test)) kept) from all list.nodes none
  intro nodes
  induction nodes with
  | nil => exact fun kept => rfl
  | cons node nodes ih =>
    intro kept
    rw [List.foldl_cons, List.foldl_cons, considerNode_of rfl, ih]

end FreeSwitch
