import MojangApi.Library.Lists
import MojangApi.Library.Numeral
import MojangApi.Library.Utf8
import MojangApi.Validation

/-! # The two spellings of a UUID

`parse_minecraft_uuid` looks at bytes. Here its shapes are described by the
characters of a string, and a string of either shape is, without its dashes and
in lower case, the compact rendering of the UUID it is parsed to.
-/

namespace MojangApi
open Library

def hexDigits : List Char :=
  ['0', '1', '2', '3', '4', '5', '6', '7', '8', '9', 'a', 'b', 'c', 'd', 'e', 'f', 'A', 'B', 'C',
    'D', 'E', 'F']

def hexValue (c : Char) : ℕ := if c.isDigit then c.toNat - 48 else c.toLower.toNat - 87

/-- The 128-bit value of digits in their order. -/
def hexNumber (digits : Str) : Uuid := BitVec.ofNat 128 (Numeral.value 16 (digits.map hexValue))

def isDashOffset (index : ℕ) : Bool := [8, 13, 18, 23].contains index

/-- 32 hex digits. -/
def Compact (s : Str) : Prop := s.length = 32 ∧ ∀ c ∈ s, c ∈ hexDigits

/-- Dashes at the four offsets, and hex digits elsewhere. -/
def Hyphenated (s : Str) : Prop :=
  s.length = 36 ∧ ∀ index c, s[index]? = some c →
    if isDashOffset index then c = '-' else c ∈ hexDigits

def withoutDashes (s : Str) : Str := s.filter (· ≠ '-')

def hyphenate (a b c d e : Str) : Str := a ++ '-' :: (b ++ '-' :: (c ++ '-' :: (d ++ '-' :: e)))

/-- `uuid.hyphenated()`: the 32 digits in groups of 8, 4, 4, 4 and 12. -/
def Uuid.hyphenated (uuid : Uuid) : Str :=
  hyphenate (uuid.simple.take 8) ((uuid.simple.drop 8).take 4) ((uuid.simple.drop 12).take 4)
    ((uuid.simple.drop 16).take 4) (uuid.simple.drop 20)

section Digits

theorem hexDigits_spec : ∀ c ∈ hexDigits, c.toNat < 128 ∧ isAsciiHexdigit (Utf8.byteOf c) = true ∧
    c ≠ '-' ∧ hexValue c < 16 ∧ Nat.digitChar (hexValue c) = c.toLower := by
  have htable : (hexDigits.all fun c => c.toNat < 128 && isAsciiHexdigit (Utf8.byteOf c) &&
      c ≠ '-' && hexValue c < 16 && Nat.digitChar (hexValue c) = c.toLower) = true := by decide
  simpa only [List.all_eq_true, Bool.and_eq_true, decide_eq_true_eq, and_assoc] using htable

theorem hexDigits_of_number : ∀ n < 128, isAsciiHexdigit (UInt8.ofNat n) = true →
    Char.ofNat n ∈ hexDigits := by
  decide +kernel

theorem mem_hexDigits_iff {c : Char} (hc : c.toNat < 128) :
    isAsciiHexdigit (Utf8.byteOf c) = true ↔ c ∈ hexDigits := by
  constructor
  · intro hbyte
    have hmem := hexDigits_of_number c.toNat hc hbyte
    rwa [Char.ofNat_toNat] at hmem
  · exact fun hmem => (hexDigits_spec c hmem).2.1

theorem dash_iff {c : Char} (hc : c.toNat < 128) : Utf8.byteOf c = 0x2D ↔ c = '-' :=
  ⟨fun h => Utf8.byteOf_inj hc (by decide) h, fun h => h ▸ rfl⟩

theorem isAsciiHexdigit_lt : ∀ n < 256, isAsciiHexdigit (UInt8.ofNat n) = true → n < 128 := by
  decide +kernel

theorem toNat_lt_of_hexdigit {byte : UInt8} (h : isAsciiHexdigit byte = true) :
    byte.toNat < 128 := by
  apply isAsciiHexdigit_lt byte.toNat byte.toNat_lt
  rwa [UInt8.ofNat_toNat]

end Digits

section Shape
variable {s : Str}

/-- The check of 32 bytes. -/
theorem compact_iff : s.bytes.length = 32 ∧ s.bytes.all isAsciiHexdigit = true ↔ Compact s := by
  constructor
  · rintro ⟨hlength, hall⟩
    rw [List.all_eq_true] at hall
    have hascii := Utf8.ascii_of_bytes (s := s) fun byte hmem => toNat_lt_of_hexdigit (hall byte hmem)
    have hbytes : s.bytes = s.map Utf8.byteOf := Utf8.flatMap_ascii hascii
    rw [hbytes] at hlength hall
    refine ⟨by simpa using hlength, fun c hc => ?_⟩
    exact (mem_hexDigits_iff (hascii c hc)).mp (hall _ (List.mem_map_of_mem hc))
  · rintro ⟨hlength, hall⟩
    have hascii : ∀ c ∈ s, c.toNat < 128 := fun c hc => (hexDigits_spec c (hall c hc)).1
    have hbytes : s.bytes = s.map Utf8.byteOf := Utf8.flatMap_ascii hascii
    rw [hbytes, List.all_eq_true]
    refine ⟨by simpa using hlength, fun byte hmem => ?_⟩
    obtain ⟨c, hc, rfl⟩ := List.mem_map.mp hmem
    exact (hexDigits_spec c (hall c hc)).2.1

/-- What the check of 36 bytes asks of one of them. -/
def fits (byte : UInt8) (index : ℕ) : Bool :=
  if [8, 13, 18, 23].contains index then byte = 0x2D else isAsciiHexdigit byte

theorem fits_iff {c : Char} (hc : c.toNat < 128) (index : ℕ) :
    fits (Utf8.byteOf c) index = true ↔ if isDashOffset index then c = '-' else c ∈ hexDigits := by
  unfold fits isDashOffset
  split
  · simpa using dash_iff hc
  · exact mem_hexDigits_iff hc

theorem toNat_lt_of_fits {byte : UInt8} {index : ℕ} (h : fits byte index = true) :
    byte.toNat < 128 := by
  unfold fits at h
  split at h
  · obtain rfl : byte = 0x2D := by simpa using h
    decide
  · exact toNat_lt_of_hexdigit h

theorem Hyphenated.ascii (h : Hyphenated s) : ∀ c ∈ s, c.toNat < 128 := by
  intro c hmem
  obtain ⟨index, hindex⟩ := List.mem_iff_getElem?.mp hmem
  have hc := h.2 index c hindex
  split at hc
  · rw [hc]
    decide
  · exact (hexDigits_spec c hc).1

theorem ascii_of_fits (h : ∀ index byte, s.bytes[index]? = some byte → fits byte index = true) :
    ∀ c ∈ s, c.toNat < 128 := by
  apply Utf8.ascii_of_bytes
  intro byte hmem
  obtain ⟨index, hindex⟩ := List.mem_iff_getElem?.mp hmem
  exact toNat_lt_of_fits (h index byte hindex)

/-- The check of 36 bytes. -/
theorem hyphenated_iff : s.bytes.length = 36 ∧ (s.bytes.zipIdx.all fun (byte, index) =>
    if [8, 13, 18, 23].contains index then byte = 0x2D else isAsciiHexdigit byte) = true ↔
      Hyphenated s := by
  rw [List.all_eq_true, forall_mem_zipIdx]
  constructor
  · rintro ⟨hlength, hfits⟩
    have hascii := ascii_of_fits hfits
    have hbytes : s.bytes = s.map Utf8.byteOf := Utf8.flatMap_ascii hascii
    rw [hbytes] at hlength hfits
    refine ⟨by simpa using hlength, fun index c hc => ?_⟩
    rw [← fits_iff (hascii c (List.mem_of_getElem? hc))]
    exact hfits index _ (by simp [hc])
  · intro h
    have hbytes : s.bytes = s.map Utf8.byteOf := Utf8.flatMap_ascii h.ascii
    rw [hbytes]
    refine ⟨by simpa using h.1, fun index byte hbyte => ?_⟩
    rw [List.getElem?_map] at hbyte
    obtain ⟨c, hc, rfl⟩ := Option.map_eq_some_iff.mp hbyte
    exact (fits_iff (h.ascii c (List.mem_of_getElem? hc)) index).mpr (h.2 index c hc)

theorem parseMinecraftUuid_of_shape {parseStr : Str → Option Uuid}
    (h : Compact s ∨ Hyphenated s) : parseMinecraftUuid parseStr s = parseStr s := by
  rcases h with h | h
  · obtain ⟨hlength, hall⟩ := compact_iff.mpr h
    simp only [parseMinecraftUuid, hlength, hall, if_true]
  · obtain ⟨hlength, hall⟩ := hyphenated_iff.mpr h
    simp only [parseMinecraftUuid, hlength, hall, if_true]

/-- Nothing of another shape gets as far as `parse_str`. -/
theorem shape_of_parseMinecraftUuid {parseStr : Str → Option Uuid} {uuid : Uuid}
    (h : parseMinecraftUuid parseStr s = some uuid) :
    (Compact s ∨ Hyphenated s) ∧ parseStr s = some uuid := by
  unfold parseMinecraftUuid at h
  dsimp only at h
  split at h
  · rename_i hlength
    split at h
    · rename_i hall
      exact ⟨.inl (compact_iff.mp ⟨hlength, hall⟩), h⟩
    · cases h
  · rename_i hlength
    split at h
    · rename_i hall
      exact ⟨.inr (hyphenated_iff.mp ⟨hlength, hall⟩), h⟩
    · cases h
  · cases h

end Shape

section Groups

/-- Dashes and digits of a part of a string that begins at an offset. -/
def Dashed (offset : ℕ) (s : Str) : Prop :=
  ∀ p ∈ s.zipIdx offset, if isDashOffset p.2 then p.1 = '-' else p.1 ∈ hexDigits

variable {s t : Str} {offset : ℕ}

theorem hyphenated_iff_dashed : Hyphenated s ↔ s.length = 36 ∧ Dashed 0 s := by
  rw [Hyphenated, Dashed, forall_mem_zipIdx]

theorem dashed_append : Dashed offset (s ++ t) ↔ Dashed offset s ∧ Dashed (offset + s.length) t := by
  simp only [Dashed, List.zipIdx_append, List.forall_mem_append]

theorem dashed_cons {c : Char} (h : isDashOffset offset = true) :
    Dashed offset (c :: s) ↔ c = '-' ∧ Dashed (offset + 1) s := by
  simp [Dashed, List.zipIdx_cons, h]

/-- Between two dashes there are only digits. -/
theorem dashed_group
    (h : ∀ index ∈ List.range' offset s.length, isDashOffset index = false) :
    Dashed offset s ↔ ∀ c ∈ s, c ∈ hexDigits := by
  have hdigit : ∀ p ∈ s.zipIdx offset, isDashOffset p.2 = false ∧ p.1 ∈ s := by
    rintro ⟨c, index⟩ hmem
    refine ⟨h index (List.mem_range'_1.mpr ⟨?_, ?_⟩), List.fst_mem_of_mem_zipIdx hmem⟩
    · exact List.le_snd_of_mem_zipIdx hmem
    · exact List.snd_lt_add_of_mem_zipIdx hmem
  constructor
  · intro hdashed c hc
    rw [← List.zipIdx_map_fst offset s] at hc
    obtain ⟨p, hp, rfl⟩ := List.mem_map.mp hc
    simpa [(hdigit p hp).1] using hdashed p hp
  · intro hhex p hp
    simpa [(hdigit p hp).1] using hhex p.1 (hdigit p hp).2

/-- The character at an offset, with what stands before and after it. -/
theorem exists_split (s : Str) (n : ℕ) (h : n < s.length) :
    ∃ before c after, s = before ++ c :: after ∧ before.length = n :=
  ⟨s.take n, s[n], s.drop (n + 1), by simp, by simp; omega⟩

theorem dashed_hyphenate {a b c d e : Str} (ha : a.length = 8) (hb : b.length = 4)
    (hc : c.length = 4) (hd : d.length = 4) (he : e.length = 12) {w x y z : Char} :
    Dashed 0 (a ++ w :: (b ++ x :: (c ++ y :: (d ++ z :: e)))) ↔
      (w = '-' ∧ x = '-' ∧ y = '-' ∧ z = '-') ∧ ∀ x ∈ a ++ b ++ c ++ d ++ e, x ∈ hexDigits := by
  rw [dashed_append, dashed_cons (by rw [ha]; decide), dashed_append,
    dashed_cons (by rw [ha, hb]; decide), dashed_append,
    dashed_cons (by rw [ha, hb, hc]; decide), dashed_append,
    dashed_cons (by rw [ha, hb, hc, hd]; decide), ha, hb, hc, hd,
    dashed_group (by rw [ha]; decide), dashed_group (by rw [hb]; decide),
    dashed_group (by rw [hc]; decide), dashed_group (by rw [hd]; decide),
    dashed_group (by rw [he]; decide)]
  simp only [List.forall_mem_append]
  tauto

/-- A hyphenated string is five groups of digits. -/
theorem hyphenated_groups : Hyphenated s ↔ ∃ a b c d e, s = hyphenate a b c d e ∧
    (a.length = 8 ∧ b.length = 4 ∧ c.length = 4 ∧ d.length = 4 ∧ e.length = 12) ∧
    ∀ x ∈ a ++ b ++ c ++ d ++ e, x ∈ hexDigits := by
  rw [hyphenated_iff_dashed]
  constructor
  · rintro ⟨hlength, hdashed⟩
    obtain ⟨a, w, s, rfl, ha⟩ := exists_split s 8 (by omega)
    rw [List.length_append, List.length_cons] at hlength
    obtain ⟨b, x, s, rfl, hb⟩ := exists_split s 4 (by omega)
    rw [List.length_append, List.length_cons] at hlength
    obtain ⟨c, y, s, rfl, hc⟩ := exists_split s 4 (by omega)
    rw [List.length_append, List.length_cons] at hlength
    obtain ⟨d, z, e, rfl, hd⟩ := exists_split s 4 (by omega)
    rw [List.length_append, List.length_cons] at hlength
    have he : e.length = 12 := by omega
    obtain ⟨⟨rfl, rfl, rfl, rfl⟩, hhex⟩ := (dashed_hyphenate ha hb hc hd he).mp hdashed
    exact ⟨a, b, c, d, e, rfl, ⟨ha, hb, hc, hd, he⟩, hhex⟩
  · rintro ⟨a, b, c, d, e, rfl, ⟨ha, hb, hc, hd, he⟩, hhex⟩
    refine ⟨?_, (dashed_hyphenate ha hb hc hd he).mpr ⟨⟨rfl, rfl, rfl, rfl⟩, hhex⟩⟩
    simp only [hyphenate, List.length_append, List.length_cons]
    omega

theorem withoutDashes_digits (h : ∀ c ∈ s, c ∈ hexDigits) : withoutDashes s = s :=
  List.filter_eq_self.mpr fun c hc => by simpa using (hexDigits_spec c (h c hc)).2.2.1

theorem withoutDashes_hyphenate {a b c d e : Str}
    (h : ∀ x ∈ a ++ b ++ c ++ d ++ e, x ∈ hexDigits) :
    withoutDashes (hyphenate a b c d e) = a ++ b ++ c ++ d ++ e := by
  rw [← withoutDashes_digits h]
  simp [withoutDashes, hyphenate]

/-- What is left of a string of either shape is 32 digits. -/
theorem compact_withoutDashes (h : Compact s ∨ Hyphenated s) : Compact (withoutDashes s) := by
  rcases h with h | h
  · rwa [withoutDashes_digits h.2]
  · obtain ⟨a, b, c, d, e, rfl, ⟨ha, hb, hc, hd, he⟩, hhex⟩ := hyphenated_groups.mp h
    rw [withoutDashes_hyphenate hhex]
    refine ⟨?_, hhex⟩
    simp only [List.length_append]
    omega

end Groups

section Renderings
variable {s t : Str} {uuid : Uuid}

theorem simple_eq (uuid : Uuid) :
    uuid.simple = (Numeral.digits 16 32 uuid.toNat).map Nat.digitChar := by
  simp [Uuid.simple, Numeral.digits]

/-- The compact rendering of a number are its digits in lower case. -/
theorem simple_hexNumber (h : Compact s) : (hexNumber s).simple = asciiLowercase s := by
  obtain ⟨hlength, hhex⟩ := h
  have hvalues : ∀ d ∈ s.map hexValue, d < 16 := by
    intro d hd
    obtain ⟨c, hc, rfl⟩ := List.mem_map.mp hd
    exact (hexDigits_spec c (hhex c hc)).2.2.2.1
  have hwidth : (s.map hexValue).length = 32 := by rw [List.length_map, hlength]
  have hfits : (hexNumber s).toNat = Numeral.value 16 (s.map hexValue) := by
    rw [hexNumber, BitVec.toNat_ofNat, Nat.mod_eq_of_lt]
    have hlt := Numeral.value_lt hvalues
    rwa [hwidth] at hlt
  have hdigits := Numeral.digits_value hvalues
  rw [hwidth] at hdigits
  rw [simple_eq, hfits, hdigits, List.map_map, asciiLowercase]
  exact List.map_congr_left fun c hc => (hexDigits_spec c (hhex c hc)).2.2.2.2

theorem digitChar_spec : ∀ d < 16, Nat.digitChar d ∈ hexDigits ∧ hexValue (Nat.digitChar d) = d ∧
    (Nat.digitChar d).toLower = Nat.digitChar d := by
  decide

theorem compact_simple (uuid : Uuid) : Compact uuid.simple := by
  rw [simple_eq]
  refine ⟨by rw [List.length_map, Numeral.length_digits], fun c hc => ?_⟩
  obtain ⟨d, hd, rfl⟩ := List.mem_map.mp hc
  exact (digitChar_spec d (Numeral.digits_lt (by decide) hd)).1

/-- Reading the compact rendering gives the UUID back. -/
theorem hexNumber_simple (uuid : Uuid) : hexNumber uuid.simple = uuid := by
  have hvalues : uuid.simple.map hexValue = Numeral.digits 16 32 uuid.toNat := by
    rw [simple_eq, List.map_map]
    refine (List.map_congr_left fun d hd => ?_).trans (List.map_id _)
    exact (digitChar_spec d (Numeral.digits_lt (by decide) hd)).2.1
  have hfits : uuid.toNat % 16 ^ 32 = uuid.toNat := Nat.mod_eq_of_lt uuid.isLt
  rw [hexNumber, hvalues, Numeral.value_digits, hfits, BitVec.ofNat_toNat, BitVec.setWidth_eq]

theorem simple_injective : Function.Injective Uuid.simple := by
  intro u v h
  rw [← hexNumber_simple u, h, hexNumber_simple]

theorem hyphenated_eq (uuid : Uuid) : uuid.simple.take 8 ++ (uuid.simple.drop 8).take 4 ++
    (uuid.simple.drop 12).take 4 ++ (uuid.simple.drop 16).take 4 ++ uuid.simple.drop 20 =
      uuid.simple := by
  have hsplit : ∀ (n m : ℕ), (uuid.simple.drop n).take m ++ uuid.simple.drop (n + m) =
      uuid.simple.drop n := by
    intro n m
    rw [← List.drop_drop, List.take_append_drop]
  rw [List.append_assoc, hsplit 16 4, List.append_assoc, hsplit 12 4, List.append_assoc,
    hsplit 8 4, List.take_append_drop]

theorem withoutDashes_hyphenated (uuid : Uuid) : withoutDashes uuid.hyphenated = uuid.simple := by
  rw [Uuid.hyphenated, withoutDashes_hyphenate, hyphenated_eq]
  rw [hyphenated_eq]
  exact (compact_simple uuid).2

theorem hyphenated_hyphenated (uuid : Uuid) : Hyphenated uuid.hyphenated := by
  have hlength := (compact_simple uuid).1
  refine hyphenated_groups.mpr ⟨_, _, _, _, _, rfl, ?_, ?_⟩
  · simp only [List.length_take, List.length_drop, hlength]
    decide
  · rw [hyphenated_eq]
    exact (compact_simple uuid).2

end Renderings

section Case
variable {s : Str} {uuid : Uuid}

theorem toLower_high {c : Char} (h : 128 ≤ c.toNat) : c.toLower = c := by
  have hnot : ¬ c.val ≤ 'Z'.val := by
    rw [UInt32.le_iff_toNat_le]
    exact fun hle => absurd (h.trans hle) (by decide)
  exact dif_neg fun hupper => hnot hupper.2

theorem ofNat_toLower : ∀ n < 128, ((Char.ofNat n).toLower ∈ hexDigits → Char.ofNat n ∈ hexDigits) ∧
    ((Char.ofNat n).toLower = '-' ↔ Char.ofNat n = '-') := by
  decide +kernel

/-- Lower case makes neither digits nor dashes. -/
theorem toLower_spec (c : Char) :
    (c.toLower ∈ hexDigits → c ∈ hexDigits) ∧ (c.toLower = '-' ↔ c = '-') := by
  by_cases h : c.toNat < 128
  · have hc := ofNat_toLower c.toNat h
    rwa [Char.ofNat_toNat] at hc
  · rw [toLower_high (Nat.not_lt.mp h)]
    exact ⟨id, Iff.rfl⟩

theorem withoutDashes_lowercase (s : Str) :
    withoutDashes (asciiLowercase s) = asciiLowercase (withoutDashes s) := by
  rw [withoutDashes, asciiLowercase, List.filter_map]
  refine congrArg (List.map Char.toLower) (List.filter_congr fun c _ => ?_)
  simpa using (toLower_spec c).2

theorem compact_of_lowercase (h : Compact (asciiLowercase s)) : Compact s := by
  refine ⟨by simpa [asciiLowercase] using h.1, fun c hc => ?_⟩
  exact (toLower_spec c).1 (h.2 _ (List.mem_map_of_mem hc))

theorem hyphenated_of_lowercase (h : Hyphenated (asciiLowercase s)) : Hyphenated s := by
  refine ⟨by simpa [asciiLowercase] using h.1, fun index c hc => ?_⟩
  have hlower := h.2 index c.toLower (by simp [asciiLowercase, hc])
  by_cases hoffset : isDashOffset index
  · rw [if_pos hoffset] at hlower ⊢
    exact (toLower_spec c).2.mp hlower
  · rw [if_neg hoffset] at hlower ⊢
    exact (toLower_spec c).1 hlower

end Case

/-- `parse_str` reads the digits in their order, in both of the spellings it is given here. -/
structure ReadsDigits (parseStr : Str → Option Uuid) : Prop where
  compact : ∀ s, Compact s → parseStr s = some (hexNumber s)
  hyphenated : ∀ s, Hyphenated s → parseStr s = some (hexNumber (withoutDashes s))

section Parse
variable {parseStr : Str → Option Uuid} {s : Str} {uuid : Uuid}

theorem ReadsDigits.parse (hparse : ReadsDigits parseStr) (h : Compact s ∨ Hyphenated s) :
    parseMinecraftUuid parseStr s = some (hexNumber (withoutDashes s)) := by
  rw [parseMinecraftUuid_of_shape h]
  rcases h with h | h
  · rw [hparse.compact s h, withoutDashes_digits h.2]
  · exact hparse.hyphenated s h

theorem ReadsDigits.isSome_iff (hparse : ReadsDigits parseStr) (s : Str) :
    (parseMinecraftUuid parseStr s).isSome = true ↔ Compact s ∨ Hyphenated s := by
  constructor
  · intro h
    obtain ⟨uuid, huuid⟩ := Option.isSome_iff_exists.mp h
    exact (shape_of_parseMinecraftUuid huuid).1
  · intro h
    rw [hparse.parse h]
    rfl

/-- Without its dashes and in lower case, an accepted string is the compact rendering. -/
theorem ReadsDigits.normal_form (hparse : ReadsDigits parseStr)
    (h : parseMinecraftUuid parseStr s = some uuid) :
    asciiLowercase (withoutDashes s) = uuid.simple := by
  have hshape := (shape_of_parseMinecraftUuid h).1
  rw [hparse.parse hshape] at h
  obtain rfl := Option.some.inj h
  exact (simple_hexNumber (compact_withoutDashes hshape)).symm

/-- Both renderings are accepted in any letter case, and give the UUID back. -/
theorem ReadsDigits.rendering (hparse : ReadsDigits parseStr)
    (h : asciiLowercase s = uuid.simple ∨ asciiLowercase s = uuid.hyphenated) :
    parseMinecraftUuid parseStr s = some uuid := by
  have hshape : Compact s ∨ Hyphenated s := by
    rcases h with h | h
    · exact .inl (compact_of_lowercase (h ▸ compact_simple uuid))
    · exact .inr (hyphenated_of_lowercase (h ▸ hyphenated_hyphenated uuid))
  have hnormal : asciiLowercase (withoutDashes s) = uuid.simple := by
    rw [← withoutDashes_lowercase]
    rcases h with h | h
    · rw [h, withoutDashes_digits (compact_simple uuid).2]
    · rw [h, withoutDashes_hyphenated]
  rw [hparse.parse hshape, ← hexNumber_simple uuid, ← hnormal,
    ← simple_hexNumber (compact_withoutDashes hshape), hexNumber_simple]

end Parse

/-- Two spellings are accepted, both renderings are read back, and two accepted strings name
one UUID, which is one cache key and one path, exactly when they differ in nothing but dashes
and letter case. -/
theorem parseMinecraftUuid_spellings (parseStr : Str → Option Uuid)
    (hparse : ReadsDigits parseStr) :
    (∀ s, (parseMinecraftUuid parseStr s).isSome = true ↔ Compact s ∨ Hyphenated s) ∧
    (∀ (uuid : Uuid) s, asciiLowercase s = uuid.simple ∨ asciiLowercase s = uuid.hyphenated →
      parseMinecraftUuid parseStr s = some uuid) ∧
    ∀ s t u v, parseMinecraftUuid parseStr s = some u → parseMinecraftUuid parseStr t = some v →
      (u = v ↔ asciiLowercase (withoutDashes s) = asciiLowercase (withoutDashes t)) ∧
      (u.simple = v.simple ↔ u = v) := by
  refine ⟨hparse.isSome_iff, fun uuid s => hparse.rendering, fun s t u v hs ht => ?_⟩
  rw [hparse.normal_form hs, hparse.normal_form ht]
  exact ⟨simple_injective.eq_iff.symm, simple_injective.eq_iff⟩

/-- Digits wherever they stand. -/
def readDigits (value : Str) : Option Uuid := some (hexNumber (withoutDashes value))

theorem readDigits_readsDigits : ReadsDigits readDigits where
  compact _ h := congrArg (fun t => some (hexNumber t)) (withoutDashes_digits h.2)
  hyphenated _ _ := rfl

/-- Two spellings of one profile. -/
theorem parseMinecraftUuid_spellings_cased :
    parseMinecraftUuid readDigits "b1ae0778-4817-436c-96a3-a72c67cda060".toList =
      parseMinecraftUuid readDigits "B1AE07784817436C96A3A72C67CDA060".toList := by
  obtain ⟨-, hrendering, -⟩ := parseMinecraftUuid_spellings readDigits readDigits_readsDigits
  rw [hrendering 0xb1ae07784817436c96a3a72c67cda060#128 _ (.inr (by decide)),
    hrendering 0xb1ae07784817436c96a3a72c67cda060#128 _ (.inl (by decide))]

end MojangApi
