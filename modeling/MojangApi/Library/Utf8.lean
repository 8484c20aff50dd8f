import Mathlib.Data.Nat.Notation
import Mathlib.Tactic.Common

/-! # Text and its UTF-8 bytes

A character below 128 is one byte with its own number, and every byte of any
other character is at least 128. So text whose bytes are all below 128 can be
read off its bytes one by one.
-/

namespace MojangApi.Library.Utf8

/-- The byte of a character that has just one. -/
def byteOf (c : Char) : UInt8 := UInt8.ofNat c.toNat

theorem toNat_byteOf {c : Char} (h : c.toNat < 128) : (byteOf c).toNat = c.toNat := by
  rw [byteOf, UInt8.toNat_ofNat']
  exact Nat.mod_eq_of_lt (by omega)

theorem byteOf_inj {c d : Char} (hc : c.toNat < 128) (hd : d.toNat < 128)
    (h : byteOf c = byteOf d) : c = d := by
  have hnat : c.toNat = d.toNat := by rw [← toNat_byteOf hc, ← toNat_byteOf hd, h]
  rw [← Char.ofNat_toNat c, ← Char.ofNat_toNat d, hnat]

theorem encode_ascii {c : Char} (h : c.toNat < 128) : String.utf8EncodeChar c = [byteOf c] := by
  have hle : c.val.toNat ≤ 127 := by
    have : c.val.toNat = c.toNat := rfl
    omega
  rw [String.utf8EncodeChar]
  exact if_pos hle

/-- The bytes from 128 on. -/
theorem toNat_ofNat_high {n : ℕ} (hlow : 128 ≤ n) (hhigh : n < 256) :
    128 ≤ (UInt8.ofNat n).toNat := by
  rwa [UInt8.toNat_ofNat', Nat.mod_eq_of_lt hhigh]

/-- Every byte of a longer sequence is a leading or a continuation byte. -/
theorem encode_high {c : Char} (h : 128 ≤ c.toNat) :
    ∀ byte ∈ String.utf8EncodeChar c, 128 ≤ byte.toNat := by
  have hlow : ¬ c.val.toNat ≤ 127 := by
    have : c.val.toNat = c.toNat := rfl
    omega
  rw [String.utf8EncodeChar, if_neg hlow]
  split
  · simp only [List.mem_cons, List.not_mem_nil, or_false, forall_eq_or_imp, forall_eq]
    exact ⟨toNat_ofNat_high (by omega) (by omega), toNat_ofNat_high (by omega) (by omega)⟩
  · split
    · simp only [List.mem_cons, List.not_mem_nil, or_false, forall_eq_or_imp, forall_eq]
      exact ⟨toNat_ofNat_high (by omega) (by omega), toNat_ofNat_high (by omega) (by omega),
        toNat_ofNat_high (by omega) (by omega)⟩
    · simp only [List.mem_cons, List.not_mem_nil, or_false, forall_eq_or_imp, forall_eq]
      exact ⟨toNat_ofNat_high (by omega) (by omega), toNat_ofNat_high (by omega) (by omega),
        toNat_ofNat_high (by omega) (by omega), toNat_ofNat_high (by omega) (by omega)⟩

/-- Low characters have one byte each. -/
theorem flatMap_ascii {s : List Char} (h : ∀ c ∈ s, c.toNat < 128) :
    s.flatMap String.utf8EncodeChar = s.map byteOf := by
  induction s with
  | nil => rfl
  | cons c s ih =>
    obtain ⟨hc, hs⟩ := List.forall_mem_cons.mp h
    rw [List.flatMap_cons, encode_ascii hc, ih hs]
    rfl

/-- Text of low bytes has only low characters. -/
theorem ascii_of_bytes {s : List Char}
    (h : ∀ byte ∈ s.flatMap String.utf8EncodeChar, byte.toNat < 128) :
    ∀ c ∈ s, c.toNat < 128 := by
  intro c hc
  by_contra hhigh
  obtain ⟨byte, hmem⟩ := List.exists_mem_of_ne_nil _ (@String.utf8EncodeChar_ne_nil c)
  have hlow := h byte (List.mem_flatMap.mpr ⟨c, hc, hmem⟩)
  have := encode_high (Nat.not_lt.mp hhigh) byte hmem
  omega

/-- The text of low bytes. -/
def ofBytes (bytes : List UInt8) : List Char := bytes.map fun byte => Char.ofNat byte.toNat

theorem flatMap_ofBytes {bytes : List UInt8} (h : ∀ byte ∈ bytes, byte.toNat < 128) :
    (ofBytes bytes).flatMap String.utf8EncodeChar = bytes := by
  have htoNat : ∀ byte ∈ bytes, (Char.ofNat byte.toNat).toNat = byte.toNat := fun byte hmem => by
    have hlow := h byte hmem
    rw [Char.ofNat, dif_pos (Or.inl (by omega))]
    rfl
  rw [flatMap_ascii, ofBytes, List.map_map]
  · refine (List.map_congr_left fun byte hmem => ?_).trans (List.map_id _)
    rw [Function.comp_apply, byteOf, htoNat byte hmem, UInt8.ofNat_toNat, id]
  · intro c hc
    obtain ⟨byte, hmem, rfl⟩ := List.mem_map.mp hc
    rw [htoNat byte hmem]
    exact h byte hmem

end MojangApi.Library.Utf8
