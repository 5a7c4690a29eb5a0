/-
**Building STUN packets.**

`switch_stun_packet_build_header` starts a packet in a buffer, and each
`switch_stun_packet_attribute_add_*` puts an attribute where the length in the header says that the
packet ends. That length is in network order, and so is what is added to it: on a machine with the
low byte first the sum has no carry from the low byte of the length to the high one.
-/

import FreeSwitch.Lib.CString
import FreeSwitch.Lib.Endian
import FreeSwitch.Stun.Packet

namespace FreeSwitch.Stun

open Bytes CString

/-! ### The functions -/

def magicCookie : BitVec 32 := 0x2112A442#32

variable (big : Bool)

/-- `switch_stun_packet_build_header`; the id is the caller's, or of random characters. -/
def buildHeader (type : Nat) (id : Vector (BitVec 8) 12) (buf : Memory) : Memory :=
  let buf := write buf 0 (bytes16 big (network16 big type))
  let buf := write buf 2 (bytes16 big 0)
  let buf := write buf 4 (machine32 big (network32 big magicCookie))
  write buf 8 id.toList

def attributeEnd (packet : Memory) : Nat := 20 + network16 big (value16 big packet 2)

variable (packet : Memory)

def putHeader (attr type length : Nat) : Memory :=
  let packet := write packet attr (bytes16 big (network16 big type))
  write packet (attr + 2) (bytes16 big (network16 big length))

/-- `packet->header.length += htons(sizeof(switch_stun_packet_attribute_t)) + attribute->length`. -/
def addLength (attr : Nat) : Memory :=
  write packet 2
    (bytes16 big (value16 big packet 2 + (network16 big 4 + value16 big packet (attr + 2))))

def addressBytes : Nat → Text → List (BitVec 8)
  | 0, _ => []
  | n + 1, p =>
    BitVec.ofInt 8 (atoi p) :: match (cut '.' p).2 with
      | some p => addressBytes n p
      | none => []

def putAddress (attr type : Nat) (port : BitVec 16) (ipstr : Text) : Memory :=
  let packet := putHeader big packet attr type 8
  let packet := write packet (attr + 6) (bytes16 big (network16 big port.toNat))
  let packet := write packet (attr + 5) [1]
  write packet (attr + 8) (addressBytes 4 ipstr)

def attributeAddBindedAddress (ipstr : Text) (port : BitVec 16) : Memory × Bool :=
  let attr := attributeEnd big packet
  (addLength big (putAddress big packet attr 0x0001 port ipstr) attr, true)

def attributeAddXorBindedAddress (ipstr : Text) (port : BitVec 16) : Memory × Bool :=
  let attr := attributeEnd big packet
  let packet := putAddress big packet attr 0x0020 (port ^^^ (magicCookie >>> 16).setWidth 16) ipstr
  let address := network32 big (network32 big (value32 big packet (attr + 8)) ^^^ magicCookie)
  (addLength big (write packet (attr + 8) (machine32 big address)) attr, true)

def addString (type : Nat) (value : List (BitVec 8)) : Memory × Bool :=
  if value.length % 4 ≠ 0 then (packet, false)
  else
    let attr := attributeEnd big packet
    let packet := putHeader big packet attr type value.length
    (addLength big (write packet (attr + 4) value) attr, true)

/-- `switch_stun_packet_attribute_add_username`; the bytes are the caller's, or random. -/
def attributeAddUsername (username : List (BitVec 8)) :
    Memory × Bool := addString big packet 0x0006 username

def attributeAddPassword (password : List (BitVec 8)) :
    Memory × Bool := addString big packet 0x0007 password

/-! ### Calls -/

/-- A string for an attribute: its length is a `uint16_t` and a multiple of 4. -/
structure AttrString where
  bytes : List (BitVec 8)
  short : bytes.length < 2 ^ 16
  words : bytes.length % 4 = 0

inductive Addition
  | bindedAddress (ipstr : Text) (port : BitVec 16)
  | xorBindedAddress (ipstr : Text) (port : BitVec 16)
  | username (name : AttrString)
  | password (name : AttrString)

namespace Addition

def apply (packet : Memory) : Addition → Memory
  | .bindedAddress ipstr port => (attributeAddBindedAddress big packet ipstr port).1
  | .xorBindedAddress ipstr port => (attributeAddXorBindedAddress big packet ipstr port).1
  | .username name => (attributeAddUsername big packet name.bytes).1
  | .password name => (attributeAddPassword big packet name.bytes).1

def type : Addition → Nat
  | .bindedAddress .. => 0x0001
  | .xorBindedAddress .. => 0x0020
  | .username _ => 0x0006
  | .password _ => 0x0007

def length : Addition → Nat
  | .bindedAddress .. | .xorBindedAddress .. => 8
  | .username name | .password name => name.bytes.length

def quad (ipstr : Text) : List (BitVec 8) :=
  (List.range 4).map fun i => (addressBytes 4 ipstr)[i]?.getD 0

/-- The value, with `order` for the order of the bytes of a port. -/
def valueWith (order : BitVec 16 → List (BitVec 8)) : Addition → List (BitVec 8)
  | .bindedAddress ipstr port => [0#8, 1#8] ++ order port ++ quad ipstr
  | .xorBindedAddress ipstr port =>
    [0#8, 1#8] ++ order (port ^^^ (magicCookie >>> 16).setWidth 16) ++
      List.zipWith (· ^^^ ·) (quad ipstr) (bytes32 magicCookie)
  | .username name | .password name => name.bytes

def wire : Addition → List (BitVec 8) :=
  valueWith fun port => [BitVec.ofNat 8 (port.toNat / 256), BitVec.ofNat 8 port.toNat]

def size (a : Addition) : Nat := 4 + a.length

theorem length_words (a : Addition) : a.length % 4 = 0 := by
  cases a with
  | username name => exact name.words
  | password name => exact name.words
  | _ => exact (by decide : 8 % 4 = 0)

theorem length_short (a : Addition) : a.length < 2 ^ 16 := by
  cases a with
  | username name => exact name.short
  | password name => exact name.short
  | _ => exact (by decide : 8 < 2 ^ 16)

theorem type_short (a : Addition) : a.type < 2 ^ 16 := by
  cases a <;> simp [type]

end Addition

def build (type : Nat) (id : Vector (BitVec 8) 12) (buf : Memory) (additions : List Addition) :
    Memory :=
  additions.foldl (fun packet a => a.apply big packet) (buildHeader big type id buf)

/-! ### The header -/

section Header

variable {big : Bool} {mem : Memory} {o v : Nat}

theorem word_write (bytes : BitVec 8 × BitVec 8) :
    word (write mem o [bytes.1, bytes.2]) o = bytes.1.toNat * 256 + bytes.2.toNat := by
  have first := @write_inside mem o [bytes.1, bytes.2] 0
  have second := @write_inside mem o [bytes.1, bytes.2] 1
  rw [Nat.add_zero] at first
  rw [word, first, second]
  rfl

theorem word_write_network (small : v < 2 ^ 16) :
    word (write mem o (bytes16 big (network16 big v))) o = v := by
  rw [bytes16_network, word_write (BitVec.ofNat 8 (v / 256), BitVec.ofNat 8 v)]
  simp only [BitVec.toNat_ofNat]
  omega

theorem word_write_outside {i : Nat} {bytes : List (BitVec 8)}
    (apart : o + 2 ≤ i ∨ i + bytes.length ≤ o) : word (write mem i bytes) o = word mem o := by
  rw [word, word, write_outside (by omega), write_outside (by omega)]

variable {type : Nat} {id : Vector (BitVec 8) 12}

theorem buildHeader_type (small : type < 2 ^ 16) : word (buildHeader big type id mem) 0 = type := by
  unfold buildHeader
  dsimp only
  rw [word_write_outside (by omega), word_write_outside (by omega), word_write_outside (by omega),
    word_write_network small]

theorem buildHeader_length : word (buildHeader big type id mem) 2 = 0 := by
  have zero : bytes16 big 0 = bytes16 big (network16 big 0) := by cases big <;> rfl
  unfold buildHeader
  dsimp only
  rw [word_write_outside (by omega), word_write_outside (by omega), zero,
    word_write_network (by decide)]

theorem buildHeader_cookie : read (buildHeader big type id mem) 4 4 = bytes32 magicCookie := by
  unfold buildHeader
  dsimp only
  rw [read_write_outside (by omega), machine32_network]
  exact read_write rfl

theorem buildHeader_outside {i : Nat} (behind : 20 ≤ i) : buildHeader big type id mem i = mem i := by
  have bytes : id.toList.length = 12 := id.size_toArray
  unfold buildHeader
  rw [write_outside (by omega), write_outside (by rw [machine32_length]; omega),
    write_outside (by rw [bytes16_length]; omega), write_outside (by rw [bytes16_length]; omega)]

end Header

/-! ### One attribute -/

def lengthAfter (big : Bool) (before length : Nat) : Nat :=
  network16 big ((network16 big before + (network16 big 4 + network16 big length)) % 2 ^ 16)

/-- `after` is `before` with an attribute at `attr`. -/
structure Placed (big : Bool) (before after : Memory) (attr : Nat) (a : Addition) : Prop where
  type : word after attr = a.type
  length : word after (attr + 2) = a.length
  value : read after (attr + 4) a.length = a.wire
  total : word after 2 = lengthAfter big (word before 2) a.length
  elsewhere : ∀ i, i ≠ 2 → i ≠ 3 → (i < attr ∨ attr + 4 + a.length ≤ i) → after i = before i

section Placing

variable {big : Bool} {packet : Memory} {attr type length : Nat}

theorem putHeader_outside {i : Nat} (other : i < attr ∨ attr + 4 ≤ i) :
    putHeader big packet attr type length i = packet i := by
  unfold putHeader
  rw [write_outside (by rw [bytes16_length]; omega), write_outside (by rw [bytes16_length]; omega)]

theorem putHeader_type (small : type < 2 ^ 16) :
    word (putHeader big packet attr type length) attr = type := by
  unfold putHeader
  dsimp only
  rw [word_write_outside (by omega), word_write_network small]

theorem putHeader_length (small : length < 2 ^ 16) :
    word (putHeader big packet attr type length) (attr + 2) = length :=
  word_write_network small

theorem placed_addLength {before packet : Memory} {a : Addition} (behind : 20 ≤ attr)
    (known : word packet attr = a.type) (sized : word packet (attr + 2) = a.length)
    (value : read packet (attr + 4) a.length = a.wire)
    (elsewhere : ∀ i, (i < attr ∨ attr + 4 + a.length ≤ i) → packet i = before i) :
    Placed big before (addLength big packet attr) attr a := by
  have same : word packet 2 = word before 2 := by
    rw [word, word, elsewhere 2 (by omega), elsewhere 3 (by omega)]
  unfold addLength
  refine ⟨?_, ?_, ?_, ?_, fun i two three other => ?_⟩
  · rw [word_write_outside (by rw [bytes16_length]; omega), known]
  · rw [word_write_outside (by rw [bytes16_length]; omega), sized]
  · rw [read_write_outside (by rw [bytes16_length]; omega), value]
  · rw [← @network16_value16 big _ 2, value16_write, lengthAfter, ← same, ← sized,
      ← @network16_value16 big packet 2, ← @network16_value16 big packet (attr + 2),
      network16_network16 value16_lt, network16_network16 value16_lt]
  · rw [write_outside (by rw [bytes16_length]; omega), elsewhere i other]

theorem attributeEnd_eq : attributeEnd big packet = 20 + word packet 2 := by
  rw [attributeEnd, network16_value16]

theorem placed_string {a : Addition} {value : List (BitVec 8)} (wire : a.wire = value)
    (sized : a.length = value.length) :
    Placed big packet (addString big packet a.type value).1 (20 + word packet 2) a := by
  have words : ¬ value.length % 4 ≠ 0 := by
    rw [← sized, a.length_words]
    exact not_not.mpr rfl
  unfold addString
  rw [if_neg words]
  dsimp only
  rw [attributeEnd_eq]
  refine placed_addLength (by omega) ?_ ?_ ?_ fun i other => ?_
  · rw [word_write_outside (by omega), putHeader_type a.type_short]
  · rw [word_write_outside (by omega), putHeader_length (by rw [← sized]; exact a.length_short),
      sized]
  · rw [read_write sized.symm, wire]
  · rw [write_outside (by omega), putHeader_outside (by omega)]

variable {port : BitVec 16} {ipstr : Text}

theorem addressBytes_length (n : Nat) (p : Text) : (addressBytes n p).length ≤ n := by
  induction n generalizing p with
  | zero => rfl
  | succ n ih =>
    rw [addressBytes]
    split
    · exact Nat.succ_le_succ (ih _)
    · exact Nat.succ_le_succ (Nat.zero_le n)

theorem putAddress_outside {i : Nat} (other : i < attr ∨ attr + 12 ≤ i) :
    putAddress big packet attr type port ipstr i = packet i := by
  have short := addressBytes_length 4 ipstr
  unfold putAddress
  rw [write_outside (by omega), write_outside (by rw [List.length_singleton]; omega),
    write_outside (by rw [bytes16_length]; omega), putHeader_outside (by omega)]

theorem putAddress_type (small : type < 2 ^ 16) :
    word (putAddress big packet attr type port ipstr) attr = type := by
  unfold putAddress
  dsimp only
  rw [word_write_outside (by omega), word_write_outside (by omega), word_write_outside (by omega),
    putHeader_type small]

theorem putAddress_length :
    word (putAddress big packet attr type port ipstr) (attr + 2) = 8 := by
  unfold putAddress
  dsimp only
  rw [word_write_outside (by omega), word_write_outside (by omega), word_write_outside (by omega),
    putHeader_length (by decide)]

theorem putAddress_front (zero : packet (attr + 4) = 0) :
    read (putAddress big packet attr type port ipstr) (attr + 4) 4 =
      [0#8, 1#8] ++ [BitVec.ofNat 8 (port.toNat / 256), BitVec.ofNat 8 port.toNat] := by
  have first : putAddress big packet attr type port ipstr (attr + 4) = 0 := by
    unfold putAddress
    rw [write_outside (by omega), write_outside (by omega), write_outside (by omega),
      putHeader_outside (by omega), zero]
  have second : putAddress big packet attr type port ipstr (attr + 5) = 1 := by
    unfold putAddress
    rw [write_outside (by omega)]
    exact write_inside 0
  have port' : read (putAddress big packet attr type port ipstr) (attr + 6) 2 =
      [BitVec.ofNat 8 (port.toNat / 256), BitVec.ofNat 8 port.toNat] := by
    unfold putAddress
    dsimp only
    rw [read_write_outside (by omega), read_write_outside (by rw [List.length_singleton]; omega),
      bytes16_network]
    exact read_write rfl
  have front : read (putAddress big packet attr type port ipstr) (attr + 4) 2 = [0#8, 1#8] := by
    change [putAddress big packet attr type port ipstr (attr + 4),
      putAddress big packet attr type port ipstr (attr + 5)] = _
    rw [first, second]
    rfl
  rw [read_add 2 2, front, port']

theorem putAddress_back (zero : ∀ i < 4, packet (attr + 8 + i) = 0) :
    read (putAddress big packet attr type port ipstr) (attr + 8) 4 = Addition.quad ipstr := by
  refine List.map_congr_left fun i member => ?_
  have inside := List.mem_range.mp member
  unfold putAddress
  rw [write_inside, write_outside (by rw [List.length_singleton]; omega),
    write_outside (by rw [bytes16_length]; omega), putHeader_outside (by omega), zero i inside]

theorem Addition.placed (a : Addition)
    (zero : ∀ i, 20 + word packet 2 ≤ i → i < 20 + word packet 2 + a.size → packet i = 0) :
    Placed big packet (a.apply big packet) (20 + word packet 2) a := by
  cases a with
  | username name => exact placed_string (a := .username name) rfl rfl
  | password name => exact placed_string (a := .password name) rfl rfl
  | bindedAddress ipstr port =>
    change ∀ i, _ → i < 20 + word packet 2 + (4 + 8) → packet i = 0 at zero
    change Placed big packet (addLength big (putAddress big packet (attributeEnd big packet)
      0x0001 port ipstr) (attributeEnd big packet)) _ _
    rw [attributeEnd_eq]
    refine placed_addLength (by omega) (putAddress_type (by decide)) putAddress_length ?_
      fun i other => putAddress_outside other
    exact (read_add 4 4).trans (congrArg₂ (· ++ ·) (putAddress_front (zero _ (by omega) (by omega)))
      (putAddress_back fun i inside => zero _ (by omega) (by omega)))
  | xorBindedAddress ipstr port =>
    change ∀ i, _ → i < 20 + word packet 2 + (4 + 8) → packet i = 0 at zero
    unfold apply attributeAddXorBindedAddress
    dsimp only
    rw [attributeEnd_eq, machine32_network, bytes32_xor, bytes32_value32,
      putAddress_back fun i inside => zero _ (by omega) (by omega)]
    have four : (List.zipWith (· ^^^ ·) (quad ipstr) (bytes32 magicCookie)).length = 4 := by
      simp [quad]
    refine placed_addLength (by omega) ?_ ?_ ?_ fun i other => ?_
    · rw [word_write_outside (by omega), putAddress_type (by decide)]
      rfl
    · rw [word_write_outside (by omega), putAddress_length]
      rfl
    · refine (read_add 4 4).trans (congrArg₂ (· ++ ·) ?_ ?_)
      · rw [read_write_outside (by omega), putAddress_front (zero _ (by omega) (by omega))]
      · change read _ (20 + word packet 2 + 8) 4 = _
        exact read_write four
    · change i < 20 + word packet 2 ∨ 20 + word packet 2 + 4 + 8 ≤ i at other
      rw [write_outside (by omega), putAddress_outside (by omega)]

end Placing

end FreeSwitch.Stun
