/-
**Events as plain text, from `switch_event.c`.**

`switch_event_serialize` writes one line for each header, with the value url-encoded, and an empty
line, or with a body its length and the body. It keeps two buffers of its own: the values are
encoded into one (`encodeLen`), and the lines are collected in the other (`dlen`).

* `serializeHeaders_eq`: the lines, where every encoded value fits the first buffer;
* **`eventSerialize_eq`**: the whole text, where the body fits the second one too
  (`bodyFits_of_short`: it does up to a million bytes).
-/

import FreeSwitch.Event.Rebuild
import FreeSwitch.Lib.Percent

namespace FreeSwitch

open CString List

/-! ### The function -/

/-- The characters in `urlunsafe`. -/
def urlunsafe : Text := "\r\n \"#%&+:;<=>?@[\\]^`\x7b|\x7d"

/-- The bytes that are encoded; those from 128 on are below a space as `char`s. -/
def urlReserved (c : Char) : Bool :=
  c.toNat < ' '.toNat || '~'.toNat < c.toNat || urlunsafe.contains c

/-- `switch_url_encode` into a buffer of `len` bytes. -/
def urlEncode (url : Text) (len : Nat) : Text := Percent.encodeInto urlReserved (len - 1) url

def headerLen (h : Header) : Nat :=
  if h.idx ≠ 0 then (h.array.map fun element => element.length * 3 + 1).sum
  else (h.value.getD []).length * 3 + 1

structure Serializing where
  buf : Text
  dlen : Nat
  encodeLen : Nat

def Serializing.start : Serializing := ⟨[], 1024, 1536⟩

/-- `dlen` once `llen` bytes more are asked for. -/
def Serializing.roomFor (s : Serializing) (llen : Nat) : Nat :=
  if s.dlen < s.buf.length + llen then s.dlen + (512 + (s.buf.length + llen)) else s.dlen

def serializeHeader (encode : Bool) (s : Serializing) (h : Header) : Serializing :=
  let encodeLen := max s.encodeLen (headerLen h)
  let value := h.value.getD []
  let encoded := if encode then urlEncode value encodeLen
    else snprintf encodeLen ('[' :: (value ++ [']']))
  let dlen := s.roomFor (h.name.length + encoded.length + 8)
  { buf := s.buf ++ snprintf (dlen - s.buf.length)
      (h.name ++ ':' :: ' ' :: ((if encoded = [] then "_undef_".toList else encoded) ++ ['\n']))
    dlen := dlen
    encodeLen := encodeLen }

def bodyText (body : Text) : Text :=
  "Content-Length: " ++ lengthText body ++ '\n' :: '\n' :: body

/-- The room for a body in the second buffer: its length is an `int` on the way. -/
def bodyLen (body : Text) : Nat :=
  let blen : Int := Int.bmod body.length (2 ^ 32)
  ((blen + if blen ≠ 0 then 25 else 5) % 2 ^ 64).toNat

def eventSerialize (e : Event) (encode : Bool) : Text :=
  let s := e.list.foldl (serializeHeader encode) Serializing.start
  match e.body with
  | some body =>
    let dlen := s.roomFor (bodyLen body)
    s.buf ++ snprintf (dlen - s.buf.length)
      (if (Int.bmod body.length (2 ^ 32) : Int) ≠ 0 then bodyText body else ['\n'])
  | none => s.buf ++ snprintf (s.dlen - s.buf.length) ['\n']

/-! ### The lines -/

def encodedValue (h : Header) : Text := Percent.encode urlReserved (h.value.getD [])

def headerText (h : Header) : Text := h.name ++ ':' :: ' ' :: (encodedValue h ++ ['\n'])

/-- `encode_len` after these headers. -/
def encodeLenAfter (headers : List Header) : Nat :=
  headers.foldl (fun encodeLen h => max encodeLen (headerLen h)) 1536

theorem encodeLenAfter_append (headers : List Header) (h : Header) :
    encodeLenAfter (headers ++ [h]) = max (encodeLenAfter headers) (headerLen h) := by
  unfold encodeLenAfter
  rw [foldl_append]
  rfl

def Encodable (headers : List Header) : Prop :=
  ∀ front h back, headers = front ++ h :: back →
    (encodedValue h).length < encodeLenAfter (front ++ [h])

variable {headers : List Header} {body : Text}

theorem Encodable.front {h : Header} (fits : Encodable (headers ++ [h])) :
    Encodable headers := fun front b back shape =>
  fits front b (back ++ [h]) (by rw [shape, append_assoc]; rfl)

/-- The state after `headers`: the lines are written, with room for more. -/
structure Serialized (headers : List Header) (s : Serializing) : Prop where
  buf : s.buf = headers.flatMap headerText
  encodeLen : s.encodeLen = encodeLenAfter headers
  room : s.buf.length + 5 ≤ s.dlen

theorem Serializing.le_roomFor (s : Serializing) (llen : Nat) : s.buf.length + llen ≤ s.roomFor llen := by
  unfold Serializing.roomFor
  split <;> omega

theorem Serialized.header {s : Serializing} (done : Serialized headers s) {h : Header}
    (filled : h.value.getD [] ≠ [])
    (fits : (encodedValue h).length < encodeLenAfter (headers ++ [h])) :
    Serialized (headers ++ [h]) (serializeHeader true s h) := by
  have encodeLen : max s.encodeLen (headerLen h) = encodeLenAfter (headers ++ [h]) := by
    rw [encodeLenAfter_append, done.encodeLen]
  have encoded : urlEncode (h.value.getD []) (max s.encodeLen (headerLen h)) = encodedValue h := by
    rw [encodeLen]
    exact Percent.encodeInto_eq urlReserved _ (by unfold encodedValue at fits; omega)
  have some : encodedValue h ≠ [] := Percent.encode_ne_nil filled
  have size : (headerText h).length = h.name.length + (encodedValue h).length + 3 := by
    simp only [headerText, length_append, length_cons, length_nil]
    omega
  have room := s.le_roomFor (h.name.length + (encodedValue h).length + 8)
  have written : snprintf (s.roomFor (h.name.length + (encodedValue h).length + 8) - s.buf.length)
      (headerText h) = headerText h := snprintf_eq (by omega)
  have buf : (serializeHeader true s h).buf = s.buf ++ headerText h := by
    simp only [serializeHeader, if_true, encoded, if_neg some]
    exact congrArg (s.buf ++ ·) written
  have dlen : (serializeHeader true s h).dlen =
      s.roomFor (h.name.length + (encodedValue h).length + 8) := by
    simp only [serializeHeader, if_true, encoded]
  refine ⟨?_, encodeLen, ?_⟩
  · rw [buf, done.buf, flatMap_append, flatMap_singleton]
  · rw [buf, dlen, length_append, size]
    omega

theorem serializeHeaders_eq (filled : ∀ h ∈ headers, h.value.getD [] ≠ [])
    (fits : Encodable headers) :
    Serialized headers (headers.foldl (serializeHeader true) Serializing.start) := by
  induction headers using List.reverseRecOn with
  | nil => exact ⟨rfl, rfl, by decide⟩
  | append_singleton headers h ih =>
    have done := ih (fun b member => filled b (mem_append_left _ member)) fits.front
    rw [foldl_append]
    exact done.header (filled h (by simp)) (fits headers h [] rfl)

/-! ### The whole text -/

def BodyFits (headers : List Header) (body : Text) : Prop :=
  let s := headers.foldl (serializeHeader true) Serializing.start
  body.length < 2 ^ 31 ∧ (bodyText body).length < s.roomFor (bodyLen body) - s.buf.length

def tailText : Option Text → Text
  | some (c :: body) => bodyText (c :: body)
  | _ => ['\n']

theorem bmod_length (small : body.length < 2 ^ 31) :
    Int.bmod body.length (2 ^ 32) = body.length :=
  Int.bmod_eq_of_le (by omega) (by omega)

theorem eventSerialize_eq {e : Event} (filled : ∀ h ∈ e.list, h.value.getD [] ≠ [])
    (fits : Encodable e.list)
    (bodyFits : ∀ body, e.body = some body → body ≠ [] → BodyFits e.list body) :
    eventSerialize e true = e.list.flatMap headerText ++ tailText e.body := by
  have done := serializeHeaders_eq filled fits
  unfold eventSerialize
  unfold BodyFits at bodyFits
  generalize e.list.foldl (serializeHeader true) Serializing.start = s at done bodyFits
  have room := done.room
  cases bodied : e.body with
  | none =>
    show s.buf ++ snprintf (s.dlen - s.buf.length) ['\n'] = _
    rw [snprintf_eq (by rw [length_singleton]; omega), done.buf]
    rfl
  | some body =>
    by_cases empty : body = []
    · subst empty
      have enough := s.le_roomFor 5
      show s.buf ++ snprintf (s.roomFor 5 - s.buf.length) ['\n'] = _
      rw [snprintf_eq (by rw [length_singleton]; omega), done.buf]
      rfl
    · obtain ⟨small, fitting⟩ := bodyFits body bodied empty
      obtain ⟨c, body, rfl⟩ := exists_cons_of_ne_nil empty
      have length : Int.bmod (c :: body).length (2 ^ 32) ≠ 0 := by
        rw [bmod_length small, length_cons]
        omega
      show s.buf ++ snprintf (s.roomFor (bodyLen (c :: body)) - s.buf.length)
        (if Int.bmod (c :: body).length (2 ^ 32) ≠ 0 then bodyText (c :: body) else ['\n']) = _
      rw [if_pos length, snprintf_eq fitting, done.buf]
      rfl

theorem lengthText_short (short : body.length < 1000000) :
    (lengthText body).length ≤ 6 := by
  have bound : body.length < 10 ^ 6 := by omega
  unfold lengthText intText
  rw [bmod_length (by omega), if_pos (by omega), Int.toNat_natCast]
  exact Nat.toDigits_length 10 body.length 6 (by decide) bound

theorem bodyText_length (body : Text) :
    (bodyText body).length = 18 + (lengthText body).length + body.length := by
  have label : "Content-Length: ".toList.length = 16 := by decide
  unfold bodyText
  generalize lengthText body = digits
  simp only [length_append, length_cons, label]
  omega

theorem bodyLen_eq (filled : body ≠ []) (small : body.length < 2 ^ 31) :
    bodyLen body = body.length + 25 := by
  have some : 0 < body.length := length_pos_iff.mpr filled
  unfold bodyLen
  rw [bmod_length small]
  dsimp only
  rw [if_pos (by omega)]
  omega

theorem bodyFits_of_short (headers : List Header) (filled : body ≠ [])
    (short : body.length < 1000000) : BodyFits headers body := by
  have small : body.length < 2 ^ 31 := by omega
  have digits := lengthText_short short
  have asked := bodyLen_eq filled small
  have size := bodyText_length body
  refine ⟨small, ?_⟩
  generalize headers.foldl (serializeHeader true) Serializing.start = s
  have enough := s.le_roomFor (body.length + 25)
  rw [asked, size]
  generalize (lengthText body).length = length at digits
  omega

end FreeSwitch
