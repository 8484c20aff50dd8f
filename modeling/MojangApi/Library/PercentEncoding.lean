import Mathlib.Data.Nat.Notation
import Mathlib.Tactic.Common

/-! # Percent-encoding of bytes

An encoder writes the bytes of a set as a percent sign and two hex digits, and
leaves the others alone. Where the percent sign is not in the set, the decoder
undoes it exactly on bytes that do not look escaped already.
-/

namespace MojangApi.Library.PercentEncoding

/-- An upper-case hex digit. -/
def hexDigit (n : ℕ) : UInt8 := UInt8.ofNat (if n < 10 then 0x30 + n else 0x41 + (n - 10))

def hexValue (byte : UInt8) : Option ℕ :=
  if 0x30 ≤ byte ∧ byte ≤ 0x39 then some (byte.toNat - 0x30)
  else if 0x41 ≤ byte ∧ byte ≤ 0x46 then some (byte.toNat - 0x37)
  else if 0x61 ≤ byte ∧ byte ≤ 0x66 then some (byte.toNat - 0x57)
  else none

/-- The byte that three bytes stand for, if they are an escape. -/
def escapedByte (first high low : UInt8) : Option UInt8 :=
  if first = 0x25 then
    (hexValue high).bind fun h => (hexValue low).map fun l => UInt8.ofNat (16 * h + l)
  else none

def encodeByte (reserved : UInt8 → Bool) (byte : UInt8) : List UInt8 :=
  if reserved byte then [0x25, hexDigit (byte.toNat / 16), hexDigit (byte.toNat % 16)] else [byte]

def encode (reserved : UInt8 → Bool) (bytes : List UInt8) : List UInt8 :=
  bytes.flatMap (encodeByte reserved)

/-- A percent sign that two hex digits do not follow is left alone. -/
def decode : List UInt8 → List UInt8
  | first :: high :: low :: rest =>
    match escapedByte first high low with
    | some byte => byte :: decode rest
    | none => first :: decode (high :: low :: rest)
  | first :: rest => first :: decode rest
  | [] => []

/-- The byte escaped at the beginning. -/
def headEscape : List UInt8 → Option UInt8
  | first :: high :: low :: _ => escapedByte first high low
  | _ => none

/-- Whether a percent sign is followed by two hex digits somewhere. -/
def hasEscape : List UInt8 → Bool
  | [] => false
  | first :: rest => (headEscape (first :: rest)).isSome || hasEscape rest

variable {reserved : UInt8 → Bool} {first high low byte : UInt8} {bytes rest : List UInt8}

section Digits

theorem hexValue_hexDigit : ∀ n < 16, hexValue (hexDigit n) = some n := by decide

theorem hexDigit_lt : ∀ n < 16, (hexDigit n).toNat < 128 := by decide

/-- An encoded byte is an escape of it. -/
theorem escapedByte_encoded (byte : UInt8) :
    escapedByte 0x25 (hexDigit (byte.toNat / 16)) (hexDigit (byte.toNat % 16)) = some byte := by
  have hbyte := byte.toNat_lt
  have hvalue : 16 * (byte.toNat / 16) + byte.toNat % 16 = byte.toNat := Nat.div_add_mod _ _
  rw [escapedByte, if_pos rfl, hexValue_hexDigit _ (by omega), hexValue_hexDigit _ (by omega)]
  rw [Option.bind_some, Option.map_some, hvalue, UInt8.ofNat_toNat]

theorem escapedByte_some (h : escapedByte first high low = some byte) :
    first = 0x25 ∧ (hexValue high).isSome = true ∧ (hexValue low).isSome = true := by
  unfold escapedByte at h
  split at h
  · rename_i hfirst
    obtain ⟨m, hm, h⟩ := Option.bind_eq_some_iff.mp h
    obtain ⟨l, hl, -⟩ := Option.map_eq_some_iff.mp h
    exact ⟨hfirst, by rw [hm]; rfl, by rw [hl]; rfl⟩
  · cases h

end Digits

section Decode

theorem decode_escape (h : escapedByte first high low = some byte) :
    decode (first :: high :: low :: rest) = byte :: decode rest := by
  rw [decode, h]

theorem decode_literal (h : headEscape (first :: rest) = none) :
    decode (first :: rest) = first :: decode rest := by
  match rest with
  | [] => rfl
  | [_] => rfl
  | high :: low :: rest =>
    have hnone : escapedByte first high low = none := h
    rw [decode, hnone]

theorem headEscape_some (h : headEscape (first :: bytes) = some byte) :
    ∃ high low rest, bytes = high :: low :: rest ∧ escapedByte first high low = some byte := by
  match bytes with
  | [] => cases h
  | [_] => cases h
  | high :: low :: rest => exact ⟨high, low, rest, rfl, h⟩

/-- A hex digit begins no escape. -/
theorem headEscape_hex (h : (hexValue first).isSome = true) :
    headEscape (first :: bytes) = none := by
  apply Option.eq_none_iff_forall_ne_some.mpr
  intro byte hsome
  obtain ⟨high, low, rest, -, hescape⟩ := headEscape_some hsome
  obtain rfl := (escapedByte_some hescape).1
  contradiction

/-- An escape is one byte, where its digits alone would be two. -/
theorem decode_head_length (h : headEscape (first :: bytes) = some byte) :
    (decode (first :: bytes)).length < (decode bytes).length := by
  obtain ⟨high, low, rest, rfl, hescape⟩ := headEscape_some h
  obtain ⟨-, hhigh, hlow⟩ := escapedByte_some hescape
  rw [decode_escape hescape, decode_literal (headEscape_hex hhigh),
    decode_literal (headEscape_hex hlow)]
  simp

theorem decode_cons_length (first : UInt8) (bytes : List UInt8) :
    (decode (first :: bytes)).length ≤ (decode bytes).length + 1 := by
  cases h : headEscape (first :: bytes) with
  | none =>
    rw [decode_literal h]
    exact Nat.le_refl _
  | some byte => exact Nat.le_succ_of_le (Nat.le_of_lt (decode_head_length h))

end Decode

section RoundTrip

/-- What an encoder leaves alone are the percent sign and the hex digits, at least. -/
structure KeepsEscapes (reserved : UInt8 → Bool) : Prop where
  percent : reserved 0x25 = false
  hex : ∀ byte, (hexValue byte).isSome = true → reserved byte = false

theorem encode_cons (byte : UInt8) (bytes : List UInt8) :
    encode reserved (byte :: bytes) = encodeByte reserved byte ++ encode reserved bytes := rfl

theorem encode_reserved (h : reserved byte = true) :
    decode (encode reserved (byte :: bytes)) = byte :: decode (encode reserved bytes) := by
  rw [encode_cons, encodeByte, if_pos h]
  exact decode_escape (escapedByte_encoded byte)

theorem encode_kept (h : reserved byte = false) :
    encode reserved (byte :: bytes) = byte :: encode reserved bytes := by
  rw [encode_cons, encodeByte, h]
  rfl

/-- A hex digit in encoded text was there before. -/
theorem encode_hex (h : encode reserved bytes = byte :: rest)
    (hhex : (hexValue byte).isSome = true) :
    ∃ later, bytes = byte :: later ∧ encode reserved later = rest := by
  cases bytes with
  | nil => cases h
  | cons b bytes =>
    cases hb : reserved b with
    | true =>
      rw [encode_cons, encodeByte, if_pos hb] at h
      obtain rfl : 0x25 = byte := (List.cons.inj h).1
      contradiction
    | false =>
      rw [encode_kept hb] at h
      obtain ⟨rfl, rfl⟩ := List.cons.inj h
      exact ⟨bytes, rfl, rfl⟩

/-- Encoding neither makes nor breaks an escape after a byte that is kept. -/
theorem headEscape_encode (hkeeps : KeepsEscapes reserved) (first : UInt8)
    (bytes : List UInt8) :
    headEscape (first :: encode reserved bytes) = headEscape (first :: bytes) := by
  refine Option.ext fun byte => ⟨fun h => ?_, fun h => ?_⟩
  · obtain ⟨high, low, rest, heq, hescape⟩ := headEscape_some h
    obtain ⟨-, hhigh, hlow⟩ := escapedByte_some hescape
    obtain ⟨later, rfl, hlater⟩ := encode_hex heq hhigh
    obtain ⟨last, rfl, -⟩ := encode_hex hlater hlow
    exact hescape
  · obtain ⟨high, low, rest, rfl, hescape⟩ := headEscape_some h
    obtain ⟨-, hhigh, hlow⟩ := escapedByte_some hescape
    rw [encode_kept (hkeeps.hex high hhigh), encode_kept (hkeeps.hex low hlow)]
    exact hescape

/-- Bytes that do not look escaped survive. -/
theorem decode_encode (hkeeps : KeepsEscapes reserved) (h : hasEscape bytes = false) :
    decode (encode reserved bytes) = bytes := by
  induction bytes with
  | nil => rfl
  | cons first bytes ih =>
    rw [hasEscape, Bool.or_eq_false_iff] at h
    have hrest := ih h.2
    cases hfirst : reserved first with
    | true => rw [encode_reserved hfirst, hrest]
    | false =>
      have hnone : headEscape (first :: encode reserved bytes) = none := by
        rw [headEscape_encode hkeeps]
        simpa using h.1
      rw [encode_kept hfirst, decode_literal hnone, hrest]

/-- Encoding and decoding never make bytes longer. -/
theorem decode_encode_length (reserved : UInt8 → Bool) (bytes : List UInt8) :
    (decode (encode reserved bytes)).length ≤ bytes.length := by
  induction bytes with
  | nil => exact Nat.le_refl 0
  | cons first bytes ih =>
    cases hfirst : reserved first with
    | true =>
      rw [encode_reserved hfirst]
      exact Nat.succ_le_succ ih
    | false =>
      rw [encode_kept hfirst]
      exact Nat.le_trans (decode_cons_length first _) (Nat.succ_le_succ ih)

/-- Bytes that look escaped come back shorter. -/
theorem decode_encode_lt (hkeeps : KeepsEscapes reserved) (h : hasEscape bytes = true) :
    (decode (encode reserved bytes)).length < bytes.length := by
  induction bytes with
  | nil => cases h
  | cons first bytes ih =>
    have hlater := decode_encode_length reserved bytes
    cases hhead : headEscape (first :: bytes) with
    | some byte =>
      obtain ⟨high, low, rest, -, hescape⟩ := headEscape_some hhead
      have hfirst : reserved first = false := by
        rw [(escapedByte_some hescape).1]
        exact hkeeps.percent
      rw [← headEscape_encode hkeeps] at hhead
      rw [encode_kept hfirst]
      exact Nat.lt_of_lt_of_le (decode_head_length hhead) (Nat.le_succ_of_le hlater)
    | none =>
      have hrest : hasEscape bytes = true := by simpa [hasEscape, hhead] using h
      cases hfirst : reserved first with
      | true =>
        rw [encode_reserved hfirst]
        exact Nat.succ_lt_succ (ih hrest)
      | false =>
        rw [encode_kept hfirst]
        exact Nat.lt_of_le_of_lt (decode_cons_length first _) (Nat.succ_lt_succ (ih hrest))

/-- Exactly the bytes without an escape survive. -/
theorem decode_encode_iff (hkeeps : KeepsEscapes reserved) :
    decode (encode reserved bytes) = bytes ↔ hasEscape bytes = false := by
  refine ⟨fun h => ?_, decode_encode hkeeps⟩
  by_contra hescape
  have hlt : (decode (encode reserved bytes)).length < bytes.length :=
    decode_encode_lt hkeeps (by simpa using hescape)
  rw [h] at hlt
  exact Nat.lt_irrefl _ hlt

/-- Encoded text is made of kept bytes, percent signs and digits. -/
theorem encode_ascii (h : ∀ byte, reserved byte = false → byte.toNat < 128)
    (bytes : List UInt8) : ∀ byte ∈ encode reserved bytes, byte.toNat < 128 := by
  intro byte hmem
  obtain ⟨plain, -, hbyte⟩ := List.mem_flatMap.mp hmem
  have hplain := plain.toNat_lt
  unfold encodeByte at hbyte
  split at hbyte
  · simp only [List.mem_cons, List.not_mem_nil, or_false] at hbyte
    rcases hbyte with rfl | rfl | rfl
    · decide
    · exact hexDigit_lt _ (by omega)
    · exact hexDigit_lt _ (by omega)
  · rename_i hkept
    obtain rfl := List.mem_singleton.mp hbyte
    exact h byte (by simpa using hkept)

end RoundTrip
end MojangApi.Library.PercentEncoding
