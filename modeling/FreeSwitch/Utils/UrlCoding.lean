/-
**Url coding, and the parameter strings that use it.**

`switch_url_encode` and `esl_url_encode` write into a buffer of `len` bytes. The second one asks for
one byte more than an escape takes, and indexes its digits with a signed byte, so that a byte from 128
on reads outside of them. `switch_channel_build_param_string` and `switch_event_build_param_string`
write the name as it is, and grow the buffer for a value by the length of its name.

* **`url_coding_iff`**: `switch_url_encode` writes what decodes to a prefix, and to all that fits;
  when `esl_url_encode` does;
* **`params_full_iff`**: when the decoded pairs of a parameter string are the fields.
-/

import FreeSwitch.Event.Serialize
import FreeSwitch.Lib.Split

namespace FreeSwitch

open CString List Option Percent

/-! ### The encoders -/

/-- The loop of `esl_url_encode`, with the bytes left in the buffer; `none` is a look outside `hex`,
for a byte that is negative as a `char`. -/
def eslEncodeInto : Nat → Text → Option Text
  | _, [] => some []
  | room, c :: s =>
    if room = 0 then some []
    else if urlReserved c then
      if room ≤ 3 then some []
      else if 128 ≤ c.toNat then none
      else (eslEncodeInto (room - 3) s).map (encodeChar urlReserved c ++ ·)
    else (eslEncodeInto (room - 1) s).map (encodeChar urlReserved c ++ ·)

def eslUrlEncode (url : Text) (len : Nat) : Option Text := eslEncodeInto (len - 1) url

/-- What is written for `s` into `len` bytes, with its end, is right. -/
structure UrlWritten (s : Text) (len : Nat) (out : Text) : Prop where
  inside : out.length + 1 ≤ len
  front : decode out <+: s
  whole : 3 * s.length + 1 ≤ len → decode out = s

variable {c : Char} {s u out : Text} {room len : Nat}

theorem encode_length_le (s : Text) : (encode urlReserved s).length ≤ 3 * s.length := by
  induction s with
  | nil => exact le_rfl
  | cons c s ih =>
    have one := encodeChar_length urlReserved c
    rw [encode_cons, length_append, length_cons]
    split at one <;> omega

/-- What is written is the encoding of a prefix, within the room. -/
structure Cuts (s : Text) (room : Nat) (u : Text) : Prop where
  front : u <+: s
  inside : (encode urlReserved u).length ≤ room

theorem Cuts.nil : Cuts s room [] where
  front := nil_prefix
  inside := Nat.zero_le _

theorem Cuts.cons (cuts : Cuts s room u) (c : Char) :
    Cuts (c :: s) (room + (encodeChar urlReserved c).length) (c :: u) := by
  refine ⟨cons_prefix_cons.mpr ⟨rfl, cuts.front⟩, ?_⟩
  have inside := cuts.inside
  rw [encode_cons, length_append]
  omega

theorem encodeInto_cuts (s : Text) (room : Nat) :
    ∃ u, encodeInto urlReserved room s = encode urlReserved u ∧ Cuts s room u := by
  induction s generalizing room with
  | nil => exact ⟨[], rfl, .nil⟩
  | cons c s ih =>
    have stop : ∃ u, ([] : Text) = encode urlReserved u ∧ Cuts (c :: s) room u := ⟨[], rfl, .nil⟩
    have one := encodeChar_length urlReserved c
    rw [encodeInto]
    split_ifs at one ⊢ with full special short
    · exact stop
    · exact stop
    · exact stop
    · obtain ⟨u, writes, cuts⟩ := ih (room - 3)
      have next := cuts.cons c
      rw [one, Nat.sub_add_cancel (by omega)] at next
      exact ⟨c :: u, by rw [writes, encode_cons], next⟩
    · obtain ⟨u, writes, cuts⟩ := ih (room - 1)
      have next := cuts.cons c
      rw [one, Nat.sub_add_cancel (by omega)] at next
      exact ⟨c :: u, by rw [writes, encode_cons], next⟩

/-- **What `esl_url_encode` writes** is the encoding of a prefix; with three bytes of room for each
it is all of it, but for reserved bytes alone in a buffer of that size. -/
theorem eslEncodeInto_cuts (writes : eslEncodeInto room s = some out) :
    ∃ u, out = encode urlReserved u ∧ Cuts s room u ∧ (3 * s.length ≤ room →
      (u = s ↔ (room = 3 * s.length → s = [] ∨ ∃ c ∈ s, urlReserved c = false))) := by
  induction s generalizing room out with
  | nil => exact ⟨[], (some.inj writes).symm, .nil, fun _ => by simp⟩
  | cons c s ih =>
    have one := encodeChar_length urlReserved c
    rw [eslEncodeInto] at writes
    split_ifs at writes with full special short
    · exact ⟨[], (some.inj writes).symm, .nil, fun fits => by rw [length_cons] at fits; omega⟩
    · refine ⟨[], (some.inj writes).symm, .nil, fun fits => ?_⟩
      rw [length_cons] at fits
      obtain rfl : s = [] := length_eq_zero_iff.mp (by omega)
      simpa [special] using (by omega : room = 3)
    · obtain ⟨out, rest, rfl⟩ := map_eq_some_iff.mp writes
      obtain ⟨u, rfl, cuts, whole⟩ := ih rest
      have next := cuts.cons c
      rw [one, if_pos special, Nat.sub_add_cancel (by omega)] at next
      refine ⟨c :: u, rfl, next, fun fits => ?_⟩
      rw [length_cons] at fits ⊢
      rw [cons.injEq, and_iff_right rfl, whole (by omega), exists_mem_cons_iff, special,
        show room - 3 = 3 * s.length ↔ room = 3 * (s.length + 1) by omega]
      refine forall_congr' fun size => ?_
      have filled : s ≠ [] := by
        rintro rfl
        simp at size
        omega
      simp [filled]
    · obtain ⟨out, rest, rfl⟩ := map_eq_some_iff.mp writes
      obtain ⟨u, rfl, cuts, whole⟩ := ih rest
      have next := cuts.cons c
      rw [one, if_neg special, Nat.sub_add_cancel (by omega)] at next
      refine ⟨c :: u, rfl, next, fun fits => ?_⟩
      rw [length_cons] at fits
      rw [cons.injEq, and_iff_right rfl, whole (by omega)]
      exact iff_of_true (fun size => by omega) fun _ => .inr ⟨c, mem_cons_self, by simpa using special⟩

theorem urlReserved_of_high (high : 128 ≤ c.toNat) : urlReserved c = true := by
  have above : 126 < c.toNat := by omega
  simp [urlReserved, above]

/-- No byte from 128 on comes where more than three bytes of the room are left. -/
def LowWhere : Nat → Text → Prop
  | _, [] => True
  | room, c :: s =>
    (128 ≤ c.toNat → room ≤ 3) ∧ LowWhere (room - (encodeChar urlReserved c).length) s

theorem lowWhere_full (s : Text) : LowWhere 0 s := by
  induction s with
  | nil => trivial
  | cons c s ih => exact ⟨fun _ => Nat.zero_le _, by rwa [Nat.zero_sub]⟩

theorem eslEncodeInto_isSome_iff : (eslEncodeInto room s).isSome ↔ LowWhere room s := by
  induction s generalizing room with
  | nil => exact iff_of_true rfl trivial
  | cons c s ih =>
    have one := encodeChar_length urlReserved c
    rw [eslEncodeInto, LowWhere]
    split_ifs with full special short high
    · exact iff_of_true rfl (by subst full; exact lowWhere_full (c :: s))
    · refine iff_of_true rfl ⟨fun _ => short, ?_⟩
      rw [one, if_pos special, Nat.sub_eq_zero_of_le short]
      exact lowWhere_full s
    · exact iff_of_false nofun fun both => short (both.1 high)
    · rw [isSome_map, ih, one, if_pos special, and_iff_right fun high' => absurd high' high]
    · rw [isSome_map, ih, one, if_neg special,
        and_iff_right fun high => absurd (urlReserved_of_high high) special]

theorem Cuts.written (cuts : Cuts s (len - 1) u) (positive : 0 < len)
    (bytes : ∀ c ∈ s, c.toNat < 256) (whole : 3 * s.length + 1 ≤ len → u = s) :
    UrlWritten s len (encode urlReserved u) := by
  have decodes : decode (encode urlReserved u) = u :=
    decode_encode (by decide) fun c member => bytes c (cuts.front.subset member)
  have inside := cuts.inside
  exact ⟨by omega, by rw [decodes]; exact cuts.front, fun fits => by rw [decodes, whole fits]⟩

theorem urlEncode_written (positive : 0 < len) (bytes : ∀ c ∈ s, c.toNat < 256) :
    UrlWritten s len (urlEncode s len) := by
  obtain ⟨u, encodes, cuts⟩ := encodeInto_cuts s (len - 1)
  rw [urlEncode, encodes]
  refine cuts.written positive bytes fun fits => ?_
  have same := @encodeInto_eq urlReserved s (len - 1) ((encode_length_le s).trans (by omega))
  have decodes : ∀ t : Text, (∀ c ∈ t, c.toNat < 256) → decode (encode urlReserved t) = t :=
    fun t => decode_encode (by decide)
  rw [← decodes s bytes, ← same, encodes,
    decodes u fun c member => bytes c (cuts.front.subset member)]

/-- **`switch_url_encode` is right for every text and buffer, `esl_url_encode` exactly when** no byte
from 128 on has room in its buffer, and where three bytes for each byte are all the room, not every
byte is reserved. -/
theorem url_coding_iff (positive : 0 < len) (bytes : ∀ c ∈ s, c.toNat < 256) :
    UrlWritten s len (urlEncode s len) ∧
      ((∃ out, eslUrlEncode s len = some out ∧ UrlWritten s len out) ↔
        LowWhere (len - 1) s ∧
          (len = 3 * s.length + 1 → s = [] ∨ ∃ c ∈ s, urlReserved c = false)) := by
  refine ⟨urlEncode_written positive bytes, ?_⟩
  rw [← eslEncodeInto_isSome_iff]
  constructor
  · rintro ⟨out, writes, written⟩
    refine ⟨by rw [← eslUrlEncode, writes]; rfl, fun size => ?_⟩
    obtain ⟨u, rfl, cuts, whole⟩ := eslEncodeInto_cuts writes
    have decodes : decode (encode urlReserved u) = u :=
      decode_encode (by decide) fun c member => bytes c (cuts.front.subset member)
    exact (whole (by omega)).mp (decodes.symm.trans (written.whole size.ge)) (by omega)
  · rintro ⟨there, mixed⟩
    obtain ⟨out, writes⟩ := isSome_iff_exists.mp there
    obtain ⟨u, rfl, cuts, whole⟩ := eslEncodeInto_cuts writes
    exact ⟨_, writes, cuts.written positive bytes fun fits =>
      (whole (by omega)).mpr fun size => mixed (by omega)⟩

theorem url_coding_query : UrlWritten "a=é" 10 (urlEncode "a=é" 10) ∧
    ∃ out, eslUrlEncode "a b" 10 = some out ∧ UrlWritten "a b" 10 out :=
  ⟨(url_coding_iff (by decide) (by simp)).1, (url_coding_iff (by decide) (by simp)).2.mpr
    ⟨⟨by decide, by decide, by decide, trivial⟩, fun _ => .inr ⟨'a', by simp, rfl⟩⟩⟩

/-- A per cent sign does not get the three bytes that there are for it, and the byte 233 is looked up
at `hex[-2]`. -/
theorem percent_left_out : eslUrlEncode ['%'] 4 = some [] ∧ eslUrlEncode ['é'] 10 = none := by
  decide

/-! ### Parameter strings -/

/-- The name, the value, and the text by whose length the buffer is grown. -/
structure ParamField where
  name : Text
  value : Text
  grows : Text

namespace ParamField

/-- `encode_len` before the field is encoded. -/
def encodeLen (encodeLen : Nat) (f : ParamField) : Nat := max encodeLen (f.grows.length * 3 + 1)

/-- The texts `name=value` of the fields. -/
def texts : Nat → List ParamField → List Text
  | _, [] => []
  | len, f :: fs => (f.name ++ '=' :: urlEncode f.value (f.encodeLen len)) :: texts (f.encodeLen len) fs

/-- The fields as they are written, each with `&` behind it. -/
def write (len : Nat) (fs : List ParamField) : Text := (texts len fs).flatMap (· ++ ['&'])

/-- Every name decodes to itself, and the encoding of every value fits into the buffer as it is
then. -/
def Fit : Nat → List ParamField → Prop
  | _, [] => True
  | len, f :: fs =>
    (decode f.name = f.name ∧ (encode urlReserved f.value).length < f.encodeLen len) ∧
      Fit (f.encodeLen len) fs

def pair (f : ParamField) : Text × Text := (f.name, f.value)

end ParamField

/-- The end of both functions: a `&` at the end is taken away. -/
def dropAmp (s : Text) : Text := if s.getLast? = some '&' then s.dropLast else s

def writeParams (front : Option Text) (fields : List ParamField) : Text :=
  dropAmp (front.elim [] (· ++ ['&']) ++ ParamField.write 1024 fields)

/-- The headers that `vars_map` enables, each sized by its name. -/
def eventFields (headers : List (Text × Text)) (varsMap : Option (Text → Option Text)) :
    List ParamField :=
  let listed := headers.filter fun h =>
    varsMap.all fun vars => (vars h.1).any fun data => ciEq data "enabled"
  listed.map fun h => ⟨h.1, h.2, h.1⟩

def eventBuildParamString (front : Option Text) (headers : List (Text × Text))
    (varsMap : Option (Text → Option Text)) : Text :=
  writeParams front (eventFields headers varsMap)

def profNames : List Text :=
  ["context", "destination_number", "caller_id_name",
    "caller_id_number", "network_addr", "ani", "aniii",
    "rdnis", "source", "chan_name", "uuid", "transfer_source"]

/-- The profile up to the first value that is not set, without empty ones, each sized by its value;
then its soft fields and the variables. -/
def channelFields (prof : List (Option Text)) (soft vars : List (Text × Text)) : List ParamField :=
  ((profNames.zip prof).takeWhile (·.2.isSome)).filterMap (fun p => p.2.bind fun value =>
    if value = [] then none else some ⟨p.1, value, value⟩) ++
    (soft ++ vars).map fun h => ⟨h.1, h.2, h.1⟩

def channelBuildParamString (front : Option Text) (prof : List (Option Text))
    (soft vars : List (Text × Text)) : Text :=
  writeParams front (channelFields prof soft vars)

/-- A `name=value` field, decoded. -/
def paramPair (field : Text) : Text × Text :=
  (decode (cut '=' field).1, decode ((cut '=' field).2.getD []))

/-- The decoded `name=value` fields of a string. -/
def paramPairs (s : Text) : List (Text × Text) :=
  if s = [] then [] else (splitStr '&' [] s).map paramPair

namespace ParamField

/-- The delimiters are not in the name, and the value is of bytes. -/
def Plain (f : ParamField) : Prop :=
  '&' ∉ f.name ∧ '=' ∉ f.name ∧ ∀ c ∈ f.value, c.toNat < 256

/-- The pairs that the written fields show. -/
def shown : Nat → List ParamField → List (Text × Text)
  | _, [] => []
  | len, f :: fs =>
    (decode f.name, decode (urlEncode f.value (f.encodeLen len))) :: shown (f.encodeLen len) fs

theorem urlEncode_clean (value : Text) (len : Nat) : '&' ∉ urlEncode value len := by
  intro member
  obtain ⟨u, writes, -⟩ := encodeInto_cuts value (len - 1)
  rw [urlEncode, writes] at member
  obtain same | digit | free := mem_encode member
  · cases same
  · cases digit
  · exact absurd free (by decide)

theorem urlEncode_full_iff {value : Text} (bytes : ∀ c ∈ value, c.toNat < 256) (positive : 0 < len) :
    decode (urlEncode value len) = value ↔ (encode urlReserved value).length < len := by
  obtain ⟨u, writes, cuts⟩ := encodeInto_cuts value (len - 1)
  have decodes : decode (encode urlReserved u) = u :=
    decode_encode (by decide) fun c member => bytes c (cuts.front.subset member)
  rw [urlEncode]
  constructor
  · rw [writes, decodes]
    rintro rfl
    have inside := cuts.inside
    omega
  · intro fits
    rw [@encodeInto_eq urlReserved value (len - 1) (by omega)]
    exact decode_encode (by decide) bytes

theorem dropAmp_flatMap {texts : List Text} (filled : texts ≠ []) :
    dropAmp (texts.flatMap (· ++ ['&'])) = ['&'].intercalate texts := by
  have last : ∀ texts : List Text, texts ≠ [] → (texts.flatMap (· ++ ['&'])).getLast? = some '&' :=
    fun texts filled => by
      obtain ⟨front, text, rfl⟩ := eq_nil_or_concat texts |>.resolve_left filled
      simp
  rw [dropAmp, if_pos (last texts filled)]
  induction texts with
  | nil => exact absurd rfl filled
  | cons text texts ih =>
    cases texts with
    | nil => simp
    | cons next texts =>
      rw [flatMap_cons, dropLast_append_of_ne_nil (by simp), ih (cons_ne_nil _ _),
        intercalate_cons_cons, append_assoc]

theorem texts_map {fs : List ParamField} (plain : ∀ f ∈ fs, f.Plain) :
    (∀ text ∈ texts len fs, ¬ ['&'] <:+: text) ∧ (texts len fs).map paramPair = shown len fs := by
  induction fs generalizing len with
  | nil => exact ⟨nofun, rfl⟩
  | cons f fs ih =>
    obtain ⟨clean, same⟩ := @ih (f.encodeLen len) fun g member => plain g (mem_cons_of_mem _ member)
    obtain ⟨amp, equals, -⟩ := plain f mem_cons_self
    refine ⟨forall_mem_cons.mpr ⟨fun inside => ?_, clean⟩, ?_⟩
    · have member := inside.subset mem_cons_self
      simp [amp, urlEncode_clean] at member
    · rw [texts, map_cons, same, paramPair, cut_append_cons equals]
      rfl

theorem paramPairs_write {f : ParamField} {fs : List ParamField}
    (plain : ∀ g ∈ f :: fs, g.Plain) :
    paramPairs (dropAmp (write len (f :: fs))) = shown len (f :: fs) := by
  obtain ⟨clean, same⟩ := @texts_map len _ plain
  have some_ : texts len (f :: fs) ≠ [] := cons_ne_nil _ _
  have filled : ['&'].intercalate (texts len (f :: fs)) ≠ [] := by
    rw [texts]
    cases texts (f.encodeLen len) fs <;> simp [intercalate_cons_cons]
  rw [paramPairs, write, dropAmp_flatMap some_, if_neg filled,
    splitStr_intercalate not_mem_nil some_ clean, same]

theorem shown_iff {fs : List ParamField} (plain : ∀ f ∈ fs, f.Plain) :
    shown len fs = fs.map pair ↔ Fit len fs := by
  induction fs generalizing len with
  | nil => exact iff_of_true rfl trivial
  | cons f fs ih =>
    have positive : 0 < f.encodeLen len := lt_max_of_lt_right (Nat.succ_pos _)
    rw [shown, map_cons, List.cons.injEq, ih fun g member => plain g (mem_cons_of_mem _ member), Fit,
      ← urlEncode_full_iff (plain f mem_cons_self).2.2 positive]
    exact and_congr_left fun _ => Prod.mk_inj

theorem writeParams_iff {fs : List ParamField} (plain : ∀ f ∈ fs, f.Plain) :
    paramPairs (writeParams none fs) = fs.map pair ↔ Fit 1024 fs := by
  cases fs with
  | nil => exact iff_of_true rfl trivial
  | cons f fs => rw [← shown_iff plain, ← paramPairs_write plain]; rfl

end ParamField

/-- **The decoded pairs of a parameter string are the fields exactly when every name decodes to
itself and every encoded value fits** into the buffer of 1024 bytes, or that the names (in the profile
the values) so far have made larger. -/
theorem params_full_iff {headers soft vars : List (Text × Text)} {prof : List (Option Text)}
    {varsMap : Option (Text → Option Text)}
    (plain : ∀ f ∈ eventFields headers varsMap ++ channelFields prof soft vars, f.Plain) :
    (paramPairs (eventBuildParamString none headers varsMap) =
        (eventFields headers varsMap).map ParamField.pair ∧
      paramPairs (channelBuildParamString none prof soft vars) =
        (channelFields prof soft vars).map ParamField.pair) ↔
      ParamField.Fit 1024 (eventFields headers varsMap) ∧
        ParamField.Fit 1024 (channelFields prof soft vars) :=
  and_congr (ParamField.writeParams_iff fun f member => plain f (mem_append_left _ member))
    (ParamField.writeParams_iff fun f member => plain f (mem_append_right _ member))

theorem params_full_call :
    paramPairs (eventBuildParamString none [("to", "a&b"), ("x", "50%")]
        none) = [("to".toList, "a&b".toList), ("x".toList, "50%".toList)] ∧
      paramPairs (channelBuildParamString none [some "public", some "1 2"] []
        [("v".toList, "c=d".toList)]) = [("context".toList, "public".toList),
          ("destination_number", "1 2"), ("v", "c=d")] :=
  (@params_full_iff [("to", "a&b"), ("x", "50%")] []
    [("v", "c=d")] [some "public", some "1 2"] none
    (by simp [eventFields, channelFields, profNames, ParamField.Plain])).mpr
    ⟨⟨by decide +kernel, by decide +kernel, trivial⟩,
      by decide +kernel, by decide +kernel, by decide +kernel, trivial⟩

/-- A value of 1024 bytes does not fit with a short name, and a name is not encoded. -/
theorem long_value_cut :
    paramPairs (eventBuildParamString none [(['a'], replicate 1024 'b')] none) ≠
      [(['a'], replicate 1024 'b')] ∧
    paramPairs (eventBuildParamString none [("a%41".toList, ['b'])] none) = [("aA".toList, ['b'])] := by
  have plain : ∀ f ∈ [ParamField.mk ['a'] (replicate 1024 'b') ['a']], f.Plain := fun f member => by
    obtain rfl := mem_singleton.mp member
    exact ⟨by decide, by decide, fun c member => by rw [eq_of_mem_replicate member]; decide⟩
  have bytes : encode urlReserved (replicate 1024 'b') = replicate 1024 'b' :=
    encode_plain urlReserved fun c member => by rw [eq_of_mem_replicate member]; decide
  refine ⟨fun same => ?_, by decide +kernel⟩
  have fits := ((ParamField.writeParams_iff plain).mp same).1.2
  rw [bytes, length_replicate] at fits
  exact absurd fits (by decide)

end FreeSwitch
