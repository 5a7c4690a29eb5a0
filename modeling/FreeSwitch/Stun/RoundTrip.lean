/-
**Packets that are built and parsed.**

The macro for the padded length clears bit 2 of the length plus 3 and not the lowest two bits, so for
a length that is a multiple of 4 the next attribute is looked for 3 bytes behind the end of the value
or 1 byte in front of it: no second attribute is found. The parser takes the packet's length off the
bytes that are left before it looks at the attributes, so it wants 8 bytes behind the packet. And the
length in the header may have lost a carry.

* **`build_round_trips_iff`**: the packets that come back as they were built.
-/

import FreeSwitch.Stun.Build
import FreeSwitch.Stun.Inside

namespace FreeSwitch.Stun

open Stun.Addition Bytes Fallible Unsigned

/-! ### Walking a packet -/

structure AttrView where
  offset : Nat
  type : Nat
  length : Nat
  value : List (BitVec 8)
deriving DecidableEq

def viewAttribute (big : Bool) (len : Nat) (mem : Memory) (attr : Nat) :
    Except Outside AttrView := do
  let type ← load16 big len mem attr
  let length ← load16 big len mem (attr + 2)
  access len (attr + 4) length
  pure ⟨attr, type, length, read mem (attr + 4) length⟩

/-- The attributes from `attr` on, by `switch_stun_packet_next_attribute`, which is given the end
`fin`. -/
def visitedFrom (big : Bool) (len : Nat) (mem : Memory) (fin attr : Nat) :
    Except Outside (List AttrView) := do
  let here ← viewAttribute big len mem attr
  let next := attr + 4 + paddedLength here.length
  if _ : next < fin then
    let length ← load16 big len mem (next + 2)
    if length ≠ 0 ∧ next + 4 * paddedLength length < fin then
      let rest ← visitedFrom big len mem fin next
      pure (here :: rest)
    else pure [here]
  else pure [here]
termination_by fin - attr

namespace Addition

def hostValue (big : Bool) : Addition → List (BitVec 8) :=
  valueWith fun port => bytes16 big port.toNat

/-- The attributes that were added, from `attr` on. -/
def views (big : Bool) (attr : Nat) : List Addition → List AttrView
  | [] => []
  | a :: rest => ⟨attr, a.type, a.length, a.hostValue big⟩ :: views big (attr + a.size) rest

end Addition

/-- The packet comes back: the header has the length of the attributes, it is accepted, and exactly
those added are visited. -/
def RoundTrips (big : Bool) (len fin : Nat) (packet : Memory) (additions : List Addition) : Prop :=
  word packet 2 = (additions.map size).sum ∧
    ∃ mem, packetParse big len packet = .ok (some mem) ∧
      visitedFrom big len mem fin 20 = .ok (views big 20 additions)

/-- The header's length and `length` are added without losing a carry: within 16 bits, or the low
byte where that comes first. -/
def Carryless (big : Bool) (length : Nat) : Prop :=
  if big then 4 + length < 2 ^ 16 else 4 + length % 256 < 256

/-! ### The second attribute -/

section Second

variable {big : Bool} {len : Nat} {mem : Memory} {fin attr : Nat}

theorem viewAttribute_offset {view : AttrView} (viewed : viewAttribute big len mem attr = .ok view) :
    view.offset = attr := by
  unfold viewAttribute at viewed
  obtain ⟨type, -, viewed⟩ := bind_eq_ok.mp viewed
  obtain ⟨length, -, viewed⟩ := bind_eq_ok.mp viewed
  obtain ⟨-, -, viewed⟩ := bind_eq_ok.mp viewed
  cases viewed
  rfl

theorem visitedFrom_cases {views : List AttrView}
    (visited : visitedFrom big len mem fin attr = .ok views) :
    ∃ first rest, views = first :: rest ∧ first.offset = attr ∧
      (rest = [] ∨
        visitedFrom big len mem fin (attr + 4 + paddedLength first.length) = .ok rest) := by
  rw [visitedFrom] at visited
  obtain ⟨first, viewed, visited⟩ := bind_eq_ok.mp visited
  have offset := viewAttribute_offset viewed
  dsimp only at visited
  split at visited
  · obtain ⟨length, -, visited⟩ := bind_eq_ok.mp visited
    split at visited
    · obtain ⟨rest, goesOn, visited⟩ := bind_eq_ok.mp visited
      cases visited
      exact ⟨first, rest, rfl, offset, .inr goesOn⟩
    · cases visited
      exact ⟨first, [], rfl, offset, .inl rfl⟩
  · cases visited
    exact ⟨first, [], rfl, offset, .inl rfl⟩

theorem visitedFrom_second {first second : AttrView} {rest : List AttrView}
    (visited : visitedFrom big len mem fin attr = .ok (first :: second :: rest)) :
    second.offset = attr + 4 + paddedLength first.length := by
  obtain ⟨_, _, ⟨⟩, -, none | goesOn⟩ := visitedFrom_cases visited
  · cases none
  · obtain ⟨_, _, ⟨⟩, offset, -⟩ := visitedFrom_cases goesOn
    exact offset

end Second

/-! ### Padding -/

theorem paddedLength_cases {length : Nat} (words : length % 4 = 0) (short : length < 2 ^ 16) :
    paddedLength length = length + 3 ∨ paddedLength length + 1 = length := by
  have small : length + 3 < 2 ^ 16 := by omega
  have mask : paddedLength length = (length + 3) &&& 65531 := by
    unfold paddedLength
    rw [BitVec.toNat_and, BitVec.toNat_ofNat, Nat.mod_eq_of_lt small]
    rfl
  have high : ((length + 3) &&& 65531) / 2 ^ 3 = (length + 3) / 2 ^ 3 := by
    rw [Nat.and_div_two_pow]
    exact Nat.and_two_pow_sub_one_of_lt_two_pow (n := 13) (by omega)
  have low : ((length + 3) &&& 65531) % 2 ^ 3 = 3 := by
    rw [Nat.and_mod_two_pow]
    have rest : (length + 3) % 2 ^ 3 = 3 ∨ (length + 3) % 2 ^ 3 = 7 := by omega
    rcases rest with rest | rest <;> rw [rest] <;> rfl
  rw [mask]
  omega

theorem paddedLength_ne (a : Addition) : paddedLength a.length ≠ a.length := by
  have cases := paddedLength_cases a.length_words a.length_short
  omega

/-! ### One attribute -/

section Single

variable {big : Bool} {len : Nat} {mem : Memory} {attr : Nat} {a : Addition}

theorem read_hosted {o v : Nat}
    (network : read mem o 2 = [BitVec.ofNat 8 (v / 256), BitVec.ofNat 8 v]) :
    read (hosted big mem o 2) o 2 = bytes16 big v := by
  change [mem o, mem (o + 1)] = _ at network
  obtain ⟨high, low⟩ : mem o = BitVec.ofNat 8 (v / 256) ∧ mem (o + 1) = BitVec.ofNat 8 v := by
    simpa using network
  change [hosted big mem o 2 o, hosted big mem o 2 (o + 1)] = _
  cases big with
  | true => simp [hosted, bytes16, high, low]
  | false =>
    rw [hosted_first, hosted_second, high, low]
    rfl

theorem read_hosted_outside {o n i m : Nat} (apart : i + m ≤ o ∨ o + n ≤ i) :
    read (hosted big mem o n) i m = read mem i m :=
  read_congr fun j inside => hosted_outside (by omega)

theorem read_headerHosted {n : Nat} :
    read (headerHosted big mem attr) (attr + 4) n = read mem (attr + 4) n :=
  read_congr fun i _ => headerHosted_outside (by omega)

theorem read_address {port : BitVec 16} {quad : List (BitVec 8)}
    (value : read mem (attr + 4) 8 = [0#8, 1#8] ++
      [BitVec.ofNat 8 (port.toNat / 256), BitVec.ofNat 8 port.toNat] ++ quad) :
    read (hosted big (headerHosted big mem attr) (attr + 6) 2) (attr + 4) 8 =
      [0#8, 1#8] ++ bytes16 big port.toNat ++ quad := by
  rw [← @read_headerHosted big] at value
  rw [read_add 4 4, read_add 2 2] at value ⊢
  obtain ⟨front, back⟩ := List.append_inj value rfl
  obtain ⟨family, network⟩ := List.append_inj front rfl
  rw [read_hosted_outside (by omega), read_hosted network, read_hosted_outside (by omega), family,
    back]

theorem attrHandled_value (known : word mem attr = a.type)
    (value : read mem (attr + 4) a.length = a.wire) :
    read (attrHandled big mem attr) (attr + 4) a.length = a.hostValue big := by
  unfold attrHandled
  rw [known]
  cases a with
  | bindedAddress ipstr port => exact read_address value
  | xorBindedAddress ipstr port => exact read_address value
  | username name | password name => exact read_headerHosted.trans value

theorem attrAccepted_addition (known : word mem attr = a.type)
    (sized : word mem (attr + 2) = a.length)
    (value : read mem (attr + 4) a.length = a.wire) : attrAccepted mem attr = true := by
  have words := a.length_words
  unfold attrAccepted
  rw [known, sized]
  cases a with
  | username name => exact decide_eq_true words
  | password name => exact decide_eq_true words
  | bindedAddress ipstr port | xorBindedAddress ipstr port =>
    have family : mem (attr + 5) = 1 := (List.cons.inj (List.cons.inj value).2).1
    change (addrLength (mem (attr + 5)).toNat).any _ = true
    rw [family]
    rfl

end Single

/-! ### Packets -/

theorem sum_wraps {high low : Nat} (highSmall : high < 256) :
    ((low + 4) * 256 + high) % 2 ^ 16 = (low + 4) % 256 * 256 + high := by
  omega

theorem lengthAfter_zero_iff {big : Bool} {length : Nat} (short : length < 2 ^ 16) :
    lengthAfter big 0 length = 4 + length ↔ Carryless big length := by
  cases big with
  | true =>
    change (0 + (4 + length)) % 2 ^ 16 = 4 + length ↔ 4 + length < 2 ^ 16
    omega
  | false =>
    obtain ⟨high, low, lowSmall, rfl⟩ : ∃ high low, low < 256 ∧ length = high * 256 + low :=
      ⟨length / 256, length % 256, Nat.mod_lt _ (by decide), by omega⟩
    have highSmall : high < 256 := by omega
    have rest : (high * 256 + low) % 256 = low := by omega
    have sum : network16 false 0 + (network16 false 4 + network16 false (high * 256 + low)) =
        (low + 4) * 256 + high := by
      rw [network16_swap highSmall lowSmall, show network16 false 0 = 0 from rfl,
        show network16 false 4 = 1024 from rfl]
      omega
    rw [lengthAfter, sum, Carryless, if_neg Bool.false_ne_true, rest]
    rw [sum_wraps highSmall, network16_swap (Nat.mod_lt _ (by decide)) highSmall]
    omega

section Packets

variable {big : Bool} {type : Nat} {id : Vector (BitVec 8) 12} {buf : Memory} {len : Nat}
  {a : Addition}

theorem build_placed (zeroed : ∀ i < len, buf i = 0) (fits : 20 + a.size ≤ len) :
    Placed big (buildHeader big type id buf) (build big type id buf [a]) 20 a := by
  have start := @buildHeader_length big buf type id
  have placed := @placed big (buildHeader big type id buf) a
  rw [start] at placed
  refine placed fun i low high => ?_
  rw [buildHeader_outside (by omega)]
  exact zeroed i (by omega)

theorem messageTypes_short : ∀ type ∈ messageTypes, type < 2 ^ 16 := by decide

theorem packetHosted_outside {packet : Memory} {i : Nat} (behind : 4 ≤ i) :
    packetHosted big packet i = packet i := by
  rw [packetHosted, hosted_outside (by omega), hosted_outside (by omega)]

theorem word_congr {mem mem' : Memory} {o : Nat} (first : mem o = mem' o)
    (second : mem (o + 1) = mem' (o + 1)) : word mem o = word mem' o := by
  rw [word, word, first, second]

structure Single (len : Nat) (mem : Memory) (a : Addition) : Prop where
  type : word mem 20 = a.type
  length : word mem 22 = a.length
  value : read mem 24 a.length = a.wire
  behind : ∀ i, 24 + a.length ≤ i → i < len → mem i = 0

theorem single_packet (zeroed : ∀ i < len, buf i = 0) (fits : 20 + a.size ≤ len) :
    Single len (packetHosted big (build big type id buf [a])) a := by
  have placed := @build_placed big type id buf len a zeroed fits
  refine ⟨?_, ?_, ?_, fun i low high => ?_⟩
  · exact (word_congr (packetHosted_outside (by omega)) (packetHosted_outside (by omega))).trans
      placed.type
  · exact (word_congr (packetHosted_outside (by omega)) (packetHosted_outside (by omega))).trans
      placed.length
  · exact (read_congr fun i _ => packetHosted_outside (by omega)).trans placed.value
  · rw [packetHosted_outside (by omega), placed.elsewhere i (by omega) (by omega) (.inr low),
      buildHeader_outside (by omega), zeroed i high]

theorem Single.raw {mem : Memory} (single : Single len mem a) {o : Nat} (low : 24 + a.length ≤ o)
    (high : o + 2 ≤ len) : value16 big (attrHandled big mem 20) o = 0 := by
  have zero : ∀ i, 24 + a.length ≤ i → i < len → attrHandled big mem 20 i = 0 := by
    intro i low high
    have same : attrHandled big mem 20 i = mem i := by
      unfold attrHandled
      rw [single.type]
      cases a with
      | username name => exact headerHosted_outside (by omega)
      | password name => exact headerHosted_outside (by omega)
      | bindedAddress ipstr port | xorBindedAddress ipstr port =>
        change 24 + 8 ≤ i at low
        exact (hosted_outside (by omega)).trans (headerHosted_outside (by omega))
    rw [same, single.behind i low high]
  rw [value16, zero o low (by omega), zero (o + 1) (by omega) (by omega)]
  cases big <;> rfl

theorem header_accepted (known : type ∈ messageTypes) (small : len < 2 ^ 32)
    (zeroed : ∀ i < len, buf i = 0) (carryless : Carryless big a.length)
    (room : 20 + a.size + 8 ≤ len) : HeaderAccepted len (build big type id buf [a]) := by
  have placed := @build_placed big type id buf len a zeroed (by omega)
  have total : word (build big type id buf [a]) 2 = 4 + a.length := by
    rw [placed.total, buildHeader_length]
    exact (lengthAfter_zero_iff a.length_short).mpr carryless
  have header : word (build big type id buf [a]) 0 = type := by
    refine Eq.trans ?_ (@buildHeader_type big buf type id (messageTypes_short type known))
    exact word_congr (placed.elsewhere 0 (by omega) (by omega) (by omega))
      (placed.elsewhere 1 (by omega) (by omega) (by omega))
  have size : a.size = 4 + a.length := rfl
  clear placed
  generalize build big type id buf [a] = packet at header total ⊢
  refine ⟨by omega, header ▸ known, by omega, ?_⟩
  rw [total, sub_of_le (by omega) small]
  omega

theorem parse_single (known : type ∈ messageTypes) (small : len < 2 ^ 32)
    (zeroed : ∀ i < len, buf i = 0) (carryless : Carryless big a.length)
    (room : 20 + a.size + 8 ≤ len) :
    ∃ mem, packetParse big len (build big type id buf [a]) = .ok (some mem) ∧
      ∀ i, 4 ≤ i →
        mem i = attrHandled big (packetHosted big (build big type id buf [a])) 20 i := by
  have single := @single_packet big type id buf len a zeroed (by omega)
  have accepted := @header_accepted big type id buf len a known small zeroed carryless room
  have size : a.size = 4 + a.length := rfl
  have padded := paddedLength_cases a.length_words a.length_short
  have next : (firstAttribute big len (build big type id buf [a])).next =
      24 + paddedLength a.length := by
    rw [Walk.next]
    exact congrArg (fun length => 24 + paddedLength length) single.length
  have stops := @Walk.walkAttributes_stops big len
    (firstAttribute big len (build big type id buf [a])) ?_
    (attrAccepted_addition single.type single.length single.value) (by omega)
    (by
      rw [Walk.rawLength, next]
      exact single.raw (by omega) (by omega))
  · rw [packetParse_accepted accepted]
    change walkAttributes big len (packetHosted big (build big type id buf [a])) 20
      (sub 32 len (word (build big type id buf [a]) 2 + 20)) = _ at stops
    rw [stops, ok_bind]
    exact finishParse_some accepted.1 _ _
  · change 20 + 8 ≤ len
    omega

theorem visited_single {mem packet : Memory} {fin : Nat} (single : Single len packet a)
    (room : 20 + a.size + 8 ≤ len) (same : ∀ i, 4 ≤ i → mem i = attrHandled big packet 20 i) :
    visitedFrom big len mem fin 20 = .ok (views big 20 [a]) := by
  have size : a.size = 4 + a.length := rfl
  have typed : value16 big mem 20 = a.type :=
    ((value16_congr (same 20 (by omega)) (same 21 (by omega))).trans attrHandled_type).trans
      single.type
  have sized : value16 big mem 22 = a.length :=
    ((value16_congr (same 22 (by omega)) (same 23 (by omega))).trans attrHandled_length).trans
      single.length
  have value : read mem 24 a.length = a.hostValue big :=
    (read_congr fun i _ => same _ (by omega)).trans (attrHandled_value single.type single.value)
  have view : viewAttribute big len mem 20 =
      .ok ⟨20, a.type, a.length, a.hostValue big⟩ := by
    unfold viewAttribute
    rw [load16_eq (by omega), ok_bind, load16_eq (by omega), ok_bind, typed, sized,
      access_eq (by omega), value]
    rfl
  have padded := paddedLength_cases a.length_words a.length_short
  rw [visitedFrom, view, ok_bind]
  dsimp only
  split
  · have raw : value16 big mem (20 + 4 + paddedLength a.length + 2) = 0 :=
      (value16_congr (same _ (by omega)) (same _ (by omega))).trans
        (single.raw (by omega) (by omega))
    rw [load16_eq (by omega), ok_bind, raw, if_neg fun both => both.1 rfl]
    rfl
  · rfl

end Packets

/-- **The packets that come back as they were built**: those with one attribute, whose length is added
without a carry, in a buffer that has 8 more bytes. -/
theorem build_round_trips_iff (big : Bool) {type : Nat} (known : type ∈ messageTypes)
    (id : Vector (BitVec 8) 12) (additions : List Addition) (buf : Memory) (len fin : Nat)
    (small : len < 2 ^ 32) (zeroed : ∀ i < len, buf i = 0)
    (fits : 20 + (additions.map size).sum ≤ len) :
    RoundTrips big len fin (build big type id buf additions) additions ↔
      ∃ a, additions = [a] ∧ Carryless big a.length ∧ 20 + a.size + 8 ≤ len := by
  constructor
  · rintro ⟨total, mem, parsed, visited⟩
    have accepted : HeaderAccepted len (build big type id buf additions) := by
      by_contra refused
      rw [packetParse_refused refused] at parsed
      cases parsed
    obtain ⟨-, -, payload, left⟩ := accepted
    rw [total] at payload left
    rw [sub_of_le (by omega) small] at left
    rcases additions with _ | ⟨a, _ | ⟨b, rest⟩⟩
    · exact absurd rfl payload
    · have placed := @build_placed big type id buf len a zeroed fits
      refine ⟨a, rfl, ?_, ?_⟩
      · rw [placed.total, buildHeader_length] at total
        exact (lengthAfter_zero_iff a.length_short).mp total
      · change 8 ≤ len - (a.size + 0 + 20) at left
        clear total
        omega
    · -- the second attribute is looked for where it is not
      have offset : 20 + a.size = 20 + 4 + paddedLength a.length := visitedFrom_second visited
      have size : a.size = 4 + a.length := rfl
      have padded := paddedLength_ne a
      clear total
      omega
  · rintro ⟨a, rfl, carryless, room⟩
    have placed := @build_placed big type id buf len a zeroed (by omega)
    obtain ⟨mem, parsed, same⟩ := @parse_single big type id buf len a known small zeroed carryless room
    refine ⟨?_, mem, parsed, visited_single (single_packet zeroed (by omega)) room same⟩
    rw [placed.total, buildHeader_length]
    exact (lengthAfter_zero_iff a.length_short).mpr carryless

def longName : AttrString := ⟨List.replicate 32 0x61, by decide, by decide⟩

/-- A request with a name, in a buffer of 256 bytes. -/
theorem build_round_trips_name : Carryless false (username longName).length ∧
    RoundTrips false 256 56
      (build false 0x0001 (Vector.replicate 12 0x30) (fun _ => 0) [.username longName])
      [.username longName] := by
  have carryless : Carryless false (username longName).length := by
    change 4 + 32 % 256 < 256
    decide
  exact ⟨carryless, (build_round_trips_iff false (by decide) (Vector.replicate 12 0x30)
    [.username longName] (fun _ => 0) 256 56 (by decide) (fun _ _ => rfl) (by decide)).mpr
      ⟨.username longName, rfl, carryless, by decide⟩⟩

/-- **The second attribute is not found.** A response with a name and an address, in a buffer of 512
bytes: the address is at 56 and is looked for at 59. -/
theorem second_attribute_missed :
    ¬ RoundTrips false 512 88
      (build false 0x0101 (Vector.replicate 12 0x30) (fun _ => 0)
        [.username longName, .bindedAddress "10.0.0.1" 5060])
      [.username longName, .bindedAddress "10.0.0.1" 5060] := by
  rintro ⟨-, mem, -, visited⟩
  have offset : 20 + 36 = 20 + 4 + paddedLength 32 := visitedFrom_second visited
  exact absurd offset (by decide)

end FreeSwitch.Stun
