/-
**The range and the parity of the ports.**

The start of the range, the number of cells and the port of a cell are each computed in their own
way. They fit together for even ports; with both parities there is a cell too many, and with odd
ports, or an odd start and no parity at all, the halving in the port of a cell loses a bit.

* `RangeKept`: for which flags and ranges everything fits;
* **`ports_in_range_iff`**: all ports ever returned lie in the range and have a permitted parity,
  exactly then.
-/

import FreeSwitch.Port.Allocator

namespace FreeSwitch

open PortAllocator PortFlags

def PortFlags.Permits (flags : PortFlags) (port : Nat) : Prop :=
  (flags.even = true → flags.odd = false → port % 2 = 0) ∧
    (flags.odd = true → flags.even = false → port % 2 = 1)

def RangeKept (flags : PortFlags) (start last : Nat) : Prop :=
  match flags.even, flags.odd with
  | true, false => start ≠ 65535
  | true, true => start = 0 ∧ last = 65535
  | false, false => start % 2 = 0
  -- the cells of odd ports stand for even ones, so there must be no cell
  | false, true => start = last ∧ start % 2 = 0 ∧ start ≠ 0

section Cells

variable {start last port : Nat} {tcp udp robust : Bool} {outside : Nat → Int}

theorem permits_both : Permits ⟨true, true, tcp, udp⟩ port := ⟨nofun, nofun⟩

theorem permits_any : Permits ⟨false, false, tcp, udp⟩ port := ⟨nofun, nofun⟩

theorem permits_even : Permits ⟨false, true, tcp, udp⟩ port ↔ port % 2 = 0 :=
  ⟨fun permits => permits.1 rfl rfl, fun even => ⟨fun _ _ => even, nofun⟩⟩

theorem permits_odd : Permits ⟨true, false, tcp, udp⟩ port ↔ port % 2 = 1 :=
  ⟨fun permits => permits.2 rfl rfl, fun odd => ⟨nofun, fun _ _ => odd⟩⟩

/-- The ports of all cells are in the range and permitted. -/
def PortAllocator.Keeps (a : PortAllocator) (flags : PortFlags) (start last : Nat) : Prop :=
  ∀ i < a.trackLen, start ≤ a.portAt i ∧ a.portAt i ≤ last ∧ flags.Permits (a.portAt i)

variable (order : start ≤ last) (small : last < 2 ^ 16)

include order small

theorem both_cells :
    let a := create start last ⟨true, true, tcp, udp⟩ robust outside
    a.Keeps ⟨true, true, tcp, udp⟩ start last ↔ start = 0 ∧ last = 65535 := by
  intro a
  have size : a.trackLen = last + 2 - start :=
    create_trackLen (by change start ≤ last + 2; omega) small
  have port : ∀ i, a.portAt i = (i + start) % 2 ^ 16 := fun _ => rfl
  simp only [Keeps, size, port, permits_both, and_true]
  constructor
  · intro all
    have behind := all (last + 1 - start) (by omega)
    omega
  · rintro ⟨rfl, rfl⟩ i -
    omega

theorem even_cells :
    let a := create start last ⟨false, true, tcp, udp⟩ robust outside
    a.Keeps ⟨false, true, tcp, udp⟩ start last ↔ start ≠ 65535 := by
  intro a
  have first : roundStart ⟨false, true, tcp, udp⟩ start = _ := roundStart_even rfl nofun (by omega)
  have final : roundEnd ⟨false, true, tcp, udp⟩ last = _ := roundEnd_even rfl nofun small
  have size : a.trackLen = (roundEnd ⟨false, true, tcp, udp⟩ last + 2
      - roundStart ⟨false, true, tcp, udp⟩ start) / 2 :=
    create_trackLen (by rw [first, final]; split <;> omega) (by rw [final]; omega)
  have port : ∀ i, a.portAt i =
      (i + roundStart ⟨false, true, tcp, udp⟩ start / 2) % 2 ^ 16 * 2 % 2 ^ 16 := fun _ => rfl
  simp only [Keeps, size, port, first, final, permits_even]
  constructor
  · rintro all rfl
    have lowest := all 0 (by rw [if_pos rfl]; omega)
    rw [if_pos rfl] at lowest
    omega
  · intro low i inside
    rw [if_neg low] at inside ⊢
    omega

theorem odd_cells :
    let a := create start last ⟨true, false, tcp, udp⟩ robust outside
    a.Keeps ⟨true, false, tcp, udp⟩ start last ↔ start = last ∧ start % 2 = 0 ∧ start ≠ 0 := by
  intro a
  have first : roundStart ⟨true, false, tcp, udp⟩ start = start + (1 - start % 2) := by
    change (if start % 2 = 0 then (start + 1) % 2 ^ 16 else start) = _
    split <;> omega
  have final : roundEnd ⟨true, false, tcp, udp⟩ last =
      if last = 0 then 65535 else last - (1 - last % 2) := by
    change (if last % 2 = 0 then (last + (2 ^ 16 - 1)) % 2 ^ 16 else last) = _
    split <;> split <;> omega
  have size : a.trackLen = (roundEnd ⟨true, false, tcp, udp⟩ last + 2
      - roundStart ⟨true, false, tcp, udp⟩ start) / 2 :=
    create_trackLen (by rw [first, final]; split <;> omega) (by rw [final]; split <;> omega)
  have even : ∀ i, a.portAt i % 2 = 0 := by
    intro i
    change (i + roundStart ⟨true, false, tcp, udp⟩ start / 2) % 2 ^ 16 * 2 % 2 ^ 16 % 2 = 0
    omega
  simp only [Keeps, permits_odd]
  constructor
  · intro all
    have none : a.trackLen = 0 := by
      by_contra some_
      have lowest := all 0 (by omega)
      have parity := even 0
      omega
    rw [size, first, final] at none
    split at none <;> omega
  · rintro ⟨rfl, parity, positive⟩ i inside
    rw [size, first, final, if_neg positive] at inside
    omega

theorem any_cells :
    let a := create start last ⟨false, false, tcp, udp⟩ robust outside
    a.Keeps ⟨false, false, tcp, udp⟩ start last ↔ start % 2 = 0 := by
  intro a
  have size : a.trackLen = (last + 2 - start) / 2 :=
    create_trackLen (by change start ≤ last + 2; omega) small
  have port : ∀ i, a.portAt i = (i + start / 2) % 2 ^ 16 * 2 % 2 ^ 16 := fun _ => rfl
  simp only [Keeps, size, port, permits_any, and_true]
  constructor
  · intro all
    have lowest := all 0 (by omega)
    omega
  · intro parity i inside
    omega

end Cells

/-- **The range and the parity**: all ports that an allocator ever returns lie in its range, and
have a parity that its flags permit, exactly for the flags and ranges of `RangeKept`. -/
theorem ports_in_range_iff (start last : Nat) (flags : PortFlags) (robust : Bool)
    (outside : Nat → Int) (order : start ≤ last) (small : last < 2 ^ 16) :
    (∀ ops, ∀ port ∈ (Run.run Ports.step
        (.start (create start last flags robust outside)) ops).issued,
      start ≤ port ∧ port ≤ last ∧ flags.Permits port) ↔ RangeKept flags start last := by
  rw [issued_iff (create_zeroed start last flags robust outside) rfl
    (fun port => start ≤ port ∧ port ≤ last ∧ flags.Permits port)]
  obtain ⟨odd, even, tcp, udp⟩ := flags
  cases even <;> cases odd
  · exact any_cells order small
  · exact odd_cells order small
  · exact even_cells order small
  · exact both_cells order small

/-- The range of the RTP ports with its default values. -/
theorem ports_in_range_iff_rtp :
    RangeKept ⟨false, true, false, false⟩ 16384 32768 ∧
      ∀ ops, ∀ port ∈ (Run.run Ports.step (.start (create 16384 32768
          ⟨false, true, false, false⟩ true (fun _ => 0))) ops).issued,
        16384 ≤ port ∧ port ≤ 32768 ∧ Permits ⟨false, true, false, false⟩ port := by
  have kept : RangeKept ⟨false, true, false, false⟩ 16384 32768 := by
    change 16384 ≠ 65535
    decide
  exact ⟨kept, (ports_in_range_iff 16384 32768 ⟨false, true, false, false⟩ true (fun _ => 0)
    (by decide) (by decide)).mpr kept⟩

/-- Odd ports from 1001 to 1003: the first port that is returned is 1000. Ports of both parities
from 10 to 12: port 13 is returned. -/
theorem ports_out_of_range :
    (Run.run Ports.step (.start (create 1001 1003
        ⟨true, false, false, false⟩ false (fun _ => 0)))
      [.request [⟨0, true, true⟩]]).issued = [1000] ∧
    (Run.run Ports.step (.start (create 10 12
        ⟨true, true, false, false⟩ false (fun _ => 0)))
      [.request [⟨3, true, true⟩]]).issued = [13] := by
  decide

end FreeSwitch
