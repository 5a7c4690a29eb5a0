/-
**Mapped addresses.**

An address goes into a packet as a dotted text and a port, plain or combined with the magic cookie,
and comes out of it in the same form. The only thing that can go wrong on the way is the parser,
which wants 8 bytes behind the packet.

* **`mapped_address_iff`**: the addresses that come back.
-/

import FreeSwitch.Stun.RoundTrip

namespace FreeSwitch.Stun

open Stun.Addition Bytes CString Fallible Unsigned

/-! ### Reading an address -/

/-- The loop that prints the four bytes at `o`. -/
def printAddress (mem : Memory) (o : Nat) : Text :=
  (List.range 4).flatMap fun x =>
    Nat.toDigits 10 (mem (o + x)).toNat ++ if x = 3 then [] else ['.']

/-- `switch_stun_packet_attribute_get_mapped_address`: the text and the port. -/
def getMappedAddress (big : Bool) (mem : Memory) (attr : Nat) : Text × Nat :=
  (printAddress mem (attr + 8), value16 big mem (attr + 6))

/-- `switch_stun_packet_attribute_get_xor_mapped_address`: the packet afterwards, text and port. -/
def getXorMappedAddress (big : Bool) (mem : Memory) (attr : Nat) (cookie : BitVec 32) :
    Memory × Text × Nat :=
  let mem := write mem (attr + 8) (machine32 big (value32 big mem (attr + 8) ^^^ cookie))
  let text := printAddress mem (attr + 8)
  let port := value16 big mem (attr + 6) ^^^ (network32 big cookie >>> 16).toNat
  (write mem (attr + 6) (bytes16 big port), text, port)

/-! ### Dotted texts -/

def dotted (a b c d : BitVec 8) : Text :=
  Nat.toDigits 10 a.toNat ++ '.' :: (Nat.toDigits 10 b.toNat ++ '.' ::
    (Nat.toDigits 10 c.toNat ++ '.' :: Nat.toDigits 10 d.toNat))

section Dotted

variable {a b c d : BitVec 8}

theorem printAddress_eq {mem : Memory} {o : Nat} (bytes : read mem o 4 = [a, b, c, d]) :
    printAddress mem o = dotted a b c d := by
  obtain ⟨first, second, third, fourth⟩ :
      mem o = a ∧ mem (o + 1) = b ∧ mem (o + 2) = c ∧ mem (o + 3) = d := by
    simpa [Bytes.read, List.range_succ] using bytes
  simp [printAddress, dotted, List.range_succ, first, second, third, fourth]

theorem dot_not_digit (n : Nat) : '.' ∉ Nat.toDigits 10 n := fun member =>
  absurd (Nat.isDigit_of_mem_toDigits (by decide) (by decide) member) (by decide)

theorem byte_atoi (a : BitVec 8) {rest : Text} (stop : ∀ c ∈ rest.head?, c.isDigit = false) :
    BitVec.ofInt 8 (atoi (Nat.toDigits 10 a.toNat ++ rest)) = a := by
  rw [atoi_toDigits a.toNat (a.isLt.trans (by decide)) stop]
  simp

theorem addressBytes_part (n : Nat) (a : BitVec 8) (rest : Text) :
    addressBytes (n + 1) (Nat.toDigits 10 a.toNat ++ '.' :: rest) = a :: addressBytes n rest := by
  rw [addressBytes, byte_atoi a (by simp), cut_append_cons (dot_not_digit _)]

theorem addressBytes_dotted : addressBytes 4 (dotted a b c d) = [a, b, c, d] := by
  have last := @byte_atoi d [] nofun
  rw [List.append_nil] at last
  rw [dotted, addressBytes_part, addressBytes_part, addressBytes_part, addressBytes,
    cut_of_not_mem (dot_not_digit _), last]

theorem quad_dotted : quad (dotted a b c d) = [a, b, c, d] := by
  rw [quad, addressBytes_dotted]
  rfl

end Dotted

/-! ### Addresses that are read back -/

theorem value16_of_bytes {big : Bool} {mem : Memory} {o v : Nat} (small : v < 2 ^ 16)
    (bytes : read mem o 2 = bytes16 big v) : value16 big mem o = v := by
  change [mem o, mem (o + 1)] = _ at bytes
  cases big with
  | true =>
    obtain ⟨high, low⟩ : mem o = BitVec.ofNat 8 (v / 256) ∧ mem (o + 1) = BitVec.ofNat 8 v := by
      simpa [bytes16] using bytes
    rw [value16, if_pos rfl, high, low]
    simp only [BitVec.toNat_ofNat]
    omega
  | false =>
    obtain ⟨low, high⟩ : mem o = BitVec.ofNat 8 v ∧ mem (o + 1) = BitVec.ofNat 8 (v / 256) := by
      simpa [bytes16] using bytes
    rw [value16, if_neg Bool.false_ne_true, high, low]
    simp only [BitVec.toNat_ofNat]
    omega

section Read

variable {big : Bool} {mem : Memory} {attr : Nat} {port : BitVec 16} {a b c d : BitVec 8}

theorem address_parts {quad : List (BitVec 8)}
    (value : read mem (attr + 4) 8 = [0#8, 1#8] ++ bytes16 big port.toNat ++ quad) :
    value16 big mem (attr + 6) = port.toNat ∧ read mem (attr + 8) 4 = quad := by
  rw [read_add 4 4, read_add 2 2] at value
  obtain ⟨front, back⟩ := List.append_inj value (by simp [read_length])
  obtain ⟨-, bytes⟩ := List.append_inj front rfl
  exact ⟨value16_of_bytes port.isLt bytes, back⟩

theorem getMappedAddress_eq
    (value : read mem (attr + 4) 8 =
      (bindedAddress (dotted a b c d) port).hostValue big) :
    getMappedAddress big mem attr = (dotted a b c d, port.toNat) := by
  obtain ⟨number, bytes⟩ := address_parts value
  rw [getMappedAddress, number, printAddress_eq (bytes.trans quad_dotted)]

theorem getXorMappedAddress_eq (header : read mem 4 4 = bytes32 magicCookie)
    (value : read mem (attr + 4) 8 =
      (xorBindedAddress (dotted a b c d) port).hostValue big) :
    (getXorMappedAddress big mem attr (value32 big mem 4)).2 = (dotted a b c d, port.toNat) := by
  obtain ⟨number, bytes⟩ := address_parts value
  have cookie : network32 big (value32 big mem 4) = magicCookie := by
    rw [network32_value32]
    change [mem 4, mem 5, mem 6, mem 7] = _ at header
    obtain ⟨first, second, third, fourth⟩ :
        mem 4 = 0x21 ∧ mem 5 = 0x12 ∧ mem 6 = 0xA4 ∧ mem 7 = 0x42 := by
      simpa [bytes32, magicCookie] using header
    rw [first, second, third, fourth]
    decide
  have plain : machine32 big (value32 big mem (attr + 8) ^^^ value32 big mem 4) = [a, b, c, d] := by
    rw [machine32_xor, machine32_value32, machine32_value32, bytes, header, quad_dotted]
    simp [bytes32]
  unfold getXorMappedAddress
  dsimp only
  rw [plain, cookie, printAddress_eq (read_write rfl)]
  have same : value16 big (write mem (attr + 8) [a, b, c, d]) (attr + 6) =
      value16 big mem (attr + 6) :=
    value16_congr (write_outside (by omega)) (write_outside (by omega))
  have half : ((magicCookie >>> 16).setWidth 16).toNat = (magicCookie >>> 16).toNat := by decide
  rw [same, number, BitVec.toNat_xor, Nat.xor_assoc, half, Nat.xor_self, Nat.xor_zero]

end Read

section Parsed

variable {big : Bool} {type : Nat} {id : Vector (BitVec 8) 12} {buf : Memory} {len : Nat}
  {addition : Addition}

theorem parsed_bytes (known : type ∈ messageTypes) (small : len < 2 ^ 32)
    (zeroed : ∀ i < len, buf i = 0) (sized : addition.length = 8) (room : 40 ≤ len) :
    ∃ mem, packetParse big len (build big type id buf [addition]) = .ok (some mem) ∧
      read mem 4 4 = bytes32 magicCookie ∧ read mem 24 8 = addition.hostValue big := by
  have size : addition.size = 12 := by rw [size, sized]
  have carryless : Carryless big addition.length := by
    rw [sized]
    cases big
    · exact (by decide : 4 + 8 % 256 < 256)
    · exact (by decide : 4 + 8 < 2 ^ 16)
  obtain ⟨mem, parsed, same⟩ := @parse_single big type id buf len addition known small zeroed
    carryless (by omega)
  have single := @single_packet big type id buf len addition zeroed (by omega)
  have placed := @build_placed big type id buf len addition zeroed (by omega)
  refine ⟨mem, parsed, ?_, ?_⟩
  · rw [← @buildHeader_cookie big buf type id]
    refine read_congr fun i inside => ?_
    rw [same _ (by omega), attrHandled_before (by omega), packetHosted_outside (by omega)]
    exact placed.elsewhere _ (by omega) (by omega) (.inl (by omega))
  · have value := @attrHandled_value big _ 20 addition single.type single.value
    rw [sized] at value
    exact (read_congr fun i _ => same _ (by omega)).trans value

theorem room_of_parsed (small : len < 2 ^ 32) (zeroed : ∀ i < len, buf i = 0)
    (sized : addition.length = 8) (fits : 32 ≤ len) {mem : Memory}
    (parsed : packetParse big len (build big type id buf [addition]) = .ok (some mem)) :
    40 ≤ len := by
  have size : addition.size = 12 := by rw [size, sized]
  have placed := @build_placed big type id buf len addition zeroed (by omega)
  have accepted : HeaderAccepted len (build big type id buf [addition]) := by
    by_contra refused
    rw [packetParse_refused refused] at parsed
    cases parsed
  have total : lengthAfter big 0 8 = 12 := by cases big <;> rfl
  obtain ⟨-, -, -, left⟩ := accepted
  rw [placed.total, buildHeader_length, sized, total, sub_of_le (by omega) small] at left
  omega

end Parsed

/-- **Addresses come back**, plain and combined with the cookie, exactly from a buffer with 8 bytes
behind the packet of 32. -/
theorem mapped_address_iff (big : Bool) {type : Nat} (known : type ∈ messageTypes)
    (id : Vector (BitVec 8) 12) (a b c d : BitVec 8) (port : BitVec 16) (buf : Memory) (len : Nat)
    (small : len < 2 ^ 32) (zeroed : ∀ i < len, buf i = 0) (fits : 32 ≤ len) :
    ((∃ mem, packetParse big len
          (build big type id buf [.bindedAddress (dotted a b c d) port]) = .ok (some mem) ∧
        getMappedAddress big mem 20 = (dotted a b c d, port.toNat)) ↔ 40 ≤ len) ∧
    ((∃ mem, packetParse big len
          (build big type id buf [.xorBindedAddress (dotted a b c d) port]) = .ok (some mem) ∧
        (getXorMappedAddress big mem 20 (value32 big mem 4)).2 = (dotted a b c d, port.toNat)) ↔
      40 ≤ len) := by
  refine ⟨⟨?_, fun room => ?_⟩, ⟨?_, fun room => ?_⟩⟩
  · rintro ⟨mem, parsed, -⟩
    exact room_of_parsed small zeroed rfl fits parsed
  · obtain ⟨mem, parsed, -, value⟩ := @parsed_bytes big type id buf len
      (.bindedAddress (dotted a b c d) port) known small zeroed rfl room
    exact ⟨mem, parsed, getMappedAddress_eq value⟩
  · rintro ⟨mem, parsed, -⟩
    exact room_of_parsed small zeroed rfl fits parsed
  · obtain ⟨mem, parsed, header, value⟩ := @parsed_bytes big type id buf len
      (.xorBindedAddress (dotted a b c d) port) known small zeroed rfl room
    exact ⟨mem, parsed, getXorMappedAddress_eq header value⟩

/-- 10.0.0.1 and port 5060, in a buffer of 512 bytes. -/
theorem mapped_address_roomy : 32 ≤ 512 ∧ ∃ mem, packetParse false 512 (build false 0x0101
      (Vector.replicate 12 0x30) (fun _ => 0) [.xorBindedAddress (dotted 10 0 0 1) 5060]) =
        .ok (some mem) ∧
    (getXorMappedAddress false mem 20 (value32 false mem 4)).2 = (dotted 10 0 0 1, 5060) :=
  ⟨by decide, (mapped_address_iff false (by decide) (Vector.replicate 12 0x30) 10 0 0 1 5060
    (fun _ => 0) 512 (by decide) (fun _ _ => rfl) (by decide)).2.mpr (by decide)⟩

/-- **A packet without bytes behind it is refused.** -/
theorem exact_packet_refused :
    packetParse false 32 (build false 0x0101 (Vector.replicate 12 0x30) (fun _ => 0)
      [.bindedAddress (dotted 10 0 0 1) 5060]) = .ok none := by
  refine packetParse_refused fun accepted => ?_
  have placed := @build_placed false 0x0101 (Vector.replicate 12 0x30) (fun _ => 0) 32
    (.bindedAddress (dotted 10 0 0 1) 5060) (fun _ _ => rfl) (by decide)
  obtain ⟨-, -, -, left⟩ := accepted
  rw [placed.total, buildHeader_length] at left
  exact absurd left (by decide)

end FreeSwitch.Stun
