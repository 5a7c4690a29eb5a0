/-
**`switch_stun_packet_parse`.**

The function converts a packet in place from network order and checks its attributes on the way.
`len` is the size of the buffer, and the header says how long the packet is. Two macros of
`switch_stun.h` take it from one attribute to the next: the padded length clears bit 2 of the length
plus 3, and the look at the next attribute takes its length as it lies there, in network order, and
in units of the four bytes of an attribute header.

Every access is checked (`Bytes.access`), so a call that would leave the buffer is an error here.
The byte order of the machine is a parameter.
-/

import FreeSwitch.Lib.Bytes
import FreeSwitch.Lib.Unsigned

namespace FreeSwitch.Stun

open Bytes Unsigned

/-! ### Attributes -/

inductive AttrKind
  | address
  | uint32
  | words
  | bytes
  | integrity
  | cookie
  | halfwords
  | mandatory
  | optional
deriving DecidableEq

def kindOf (type : Nat) : AttrKind :=
  if type ∈ [0x0001, 0x0020, 0x0002, 0x0004, 0x0005, 0x000b, 0x000e, 0x0011, 0x0012] then .address
  else if type ∈ [0x0003, 0x000d, 0x0010, 0x8001] then .uint32
  else if type ∈ [0x0006, 0x0007] then .words
  else if type ∈ [0x0013, 0x0009, 0x000c] then .bytes
  else if type = 0x0008 then .integrity
  else if type = 0x000f then .cookie
  else if type = 0x000a then .halfwords
  else if type ≤ 0x7FFF then .mandatory
  else .optional

def addrLength : Nat → Option Nat
  | 0x01 => some 4
  | 0x02 => some 16
  | _ => none

def lengthAccepted (kind : AttrKind) (length : Nat) : Bool :=
  match kind with
  | .address => false
  | .uint32 => length = 4
  | .words => length % 4 = 0
  | .bytes => true
  | .integrity => length = 20
  | .cookie => length = 4
  | .halfwords => length % 2 = 0
  | .mandatory => false
  | .optional => true

def paddedLength (length : Nat) : Nat := (BitVec.ofNat 16 (length + 3) &&& ~~~4#16).toNat

/-- The switch over the type of an attribute: the memory afterwards, or nothing for `NULL`. -/
def handleAttribute (big : Bool) (len : Nat) (mem : Memory) (attr : Nat) :
    Except Outside (Option Memory) := do
  let type ← load16 big len mem attr
  match kindOf type with
  | .address =>
    let family ← load8 len mem (attr + 5)
    match addrLength family with
    | none => pure none
    | some size =>
      let length ← load16 big len mem (attr + 2)
      if length ≠ size + 4 then pure none
      else
        let mem ← toHost big len mem (attr + 6) 2
        pure (some mem)
  | .uint32 =>
    let length ← load16 big len mem (attr + 2)
    if length ≠ 4 then pure none
    else
      let mem ← toHost big len mem (attr + 4) 4
      pure (some mem)
  | kind =>
    let length ← load16 big len mem (attr + 2)
    if lengthAccepted kind length then pure (some mem) else pure none

def visitAttribute (big : Bool) (len : Nat) (mem : Memory) (attr : Nat) :
    Except Outside (Option Memory) := do
  let mem ← toHost big len mem (attr + 2) 2
  let mem ← toHost big len mem attr 2
  handleAttribute big len mem attr

/-- The loop from `attr` on: the memory and the bytes left behind the last attribute, or nothing for
`NULL`. -/
def walkAttributes (big : Bool) (len : Nat) (mem : Memory) (attr bytesLeft : Nat) :
    Except Outside (Option (Memory × Nat)) := do
  match ← visitAttribute big len mem attr with
  | none => pure none
  | some mem =>
    let length ← load16 big len mem (attr + 2)
    let bytesLeft := sub 32 (sub 32 bytesLeft 4) (paddedLength length)
    -- `switch_stun_packet_next_attribute`
    if _ : 8 ≤ bytesLeft ∧ attr + 4 + paddedLength length < len then
      let next := attr + 4 + paddedLength length
      let length ← load16 big len mem (next + 2)
      if length ≠ 0 ∧ next + 4 * paddedLength length < len then
        walkAttributes big len mem next bytesLeft
      else pure (some (mem, bytesLeft))
    else pure (some (mem, bytesLeft))
termination_by len - attr

/-! ### The packet -/

/-- `switch_stun_message_t`. -/
def messageTypes : List Nat :=
  [0x0001, 0x0101, 0x0111, 0x0002, 0x0102, 0x0112, 0x0003, 0x0103, 0x0113, 0x0004, 0x0104, 0x0114,
    0x0115]

def store16 (big : Bool) (len : Nat) (mem : Memory) (o v : Nat) : Except Outside Memory := do
  access len o 2
  let high := BitVec.ofNat 8 (v / 256)
  let low := BitVec.ofNat 8 v
  pure fun i =>
    if i = o then (if big then high else low) else if i = o + 1 then (if big then low else high)
    else mem i

/-- Behind the loop: the length in the header is cut to the attributes. -/
def finishParse (big : Bool) (len : Nat) :
    Option (Memory × Nat) → Except Outside (Option Memory)
  | none => pure none
  | some (mem, bytesLeft) => do
    let length ← load16 big len mem 2
    if length + 20 > sub 32 len bytesLeft then
      let mem ← store16 big len mem 2 (sub 32 (sub 32 len bytesLeft) 20 % 2 ^ 16)
      pure (some mem)
    else pure (some mem)

/-- `switch_stun_packet_parse`: the packet afterwards, or nothing for `NULL`. -/
def packetParse (big : Bool) (len : Nat) (buf : Memory) : Except Outside (Option Memory) :=
  if len < 20 then pure none
  else do
    let mem ← toHost big len buf 0 2
    let mem ← toHost big len mem 2 2
    let length ← load16 big len mem 2
    let bytesLeft := sub 32 len (length + 20)
    let type ← load16 big len mem 0
    if type ∉ messageTypes then pure none
    else if bytesLeft ≤ 0 then pure none
    else if length = 0 then pure none
    else if bytesLeft < 8 then pure none
    else walkAttributes big len mem 20 bytesLeft >>= finishParse big len

end FreeSwitch.Stun
