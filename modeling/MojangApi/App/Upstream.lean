import MojangApi.App.Accounting
import MojangApi.App.History
import MojangApi.Spellings

/-! # What clients can make the proxy ask of Mojang

Whatever they send, a call lists lowercased usernames that some of them sent, and a
skin request asks for a UUID that some of them spelled. There are no more of either
than valid requests.
-/

namespace MojangApi.App
open MojangApi Library Mojang

variable {U : Type}

def nameChars : Str := "abcdefghijklmnopqrstuvwxyz0123456789_-".toList

/-- A username in lower case. -/
structure PlainName (name : Str) : Prop where
  ne_nil : name ≠ []
  length : name.length ≤ 16
  chars : ∀ c ∈ name, c ∈ nameChars

section Names
variable {name : Str}

/-- The bytes that `is_valid_minecraft_username` lets through. -/
def isNameByte (byte : UInt8) : Bool := isAsciiAlphanumeric byte || byte = 0x5F || byte = 0x2D

theorem isNameByte_ofNat : ∀ n < 128,
    isNameByte (UInt8.ofNat n) = true ↔ (Char.ofNat n).toLower ∈ nameChars := by
  decide +kernel

theorem isNameByte_lt : ∀ n < 256, isNameByte (UInt8.ofNat n) = true → n < 128 := by
  decide +kernel

theorem nameChars_ascii : ∀ c ∈ nameChars, c.toNat < 128 := by
  have htable : (nameChars.all fun c => c.toNat < 128) = true := by decide
  simpa only [List.all_eq_true, decide_eq_true_eq] using htable

theorem isNameByte_iff {c : Char} (hc : c.toNat < 128) :
    isNameByte (Utf8.byteOf c) = true ↔ c.toLower ∈ nameChars := by
  have hbyte := isNameByte_ofNat c.toNat hc
  rwa [Char.ofNat_toNat] at hbyte

theorem ascii_of_plain (h : PlainName (asciiLowercase name)) : ∀ c ∈ name, c.toNat < 128 := by
  intro c hc
  by_contra hhigh
  have hmem := h.chars c.toLower (List.mem_map_of_mem hc)
  rw [toLower_high (Nat.not_lt.mp hhigh)] at hmem
  exact hhigh (nameChars_ascii c hmem)

theorem ascii_of_valid (h : isValidMinecraftUsername name = true) : ∀ c ∈ name, c.toNat < 128 := by
  simp only [isValidMinecraftUsername, Bool.and_eq_true, List.all_eq_true] at h
  refine Utf8.ascii_of_bytes fun byte hmem => ?_
  apply isNameByte_lt byte.toNat byte.toNat_lt
  rw [UInt8.ofNat_toNat]
  exact h.2 byte hmem

/-- The check of the bytes is one of the text, up to case. -/
theorem isValidMinecraftUsername_iff (name : Str) :
    isValidMinecraftUsername name = true ↔ PlainName (asciiLowercase name) := by
  have hascii : (∀ c ∈ name, c.toNat < 128) →
      (isValidMinecraftUsername name = true ↔ PlainName (asciiLowercase name)) := by
    intro hascii
    have hbytes : name.bytes = name.map Utf8.byteOf := Utf8.flatMap_ascii hascii
    have hall : (name.bytes.all isNameByte) = true ↔ ∀ c ∈ asciiLowercase name, c ∈ nameChars := by
      rw [hbytes, asciiLowercase, List.all_map, List.all_eq_true, List.forall_mem_map]
      exact forall₂_congr fun c hc => isNameByte_iff (hascii c hc)
    have hlength : name.bytes.length = (asciiLowercase name).length := by
      rw [hbytes, asciiLowercase, List.length_map, List.length_map]
    have hnil : name.isEmpty = false ↔ asciiLowercase name ≠ [] := by
      cases name <;> simp [asciiLowercase]
    change (!name.isEmpty && decide (name.bytes.length ≤ 16) && name.bytes.all isNameByte) = true ↔ _
    rw [Bool.and_eq_true, Bool.and_eq_true, hall, hlength, Bool.not_eq_true', hnil,
      decide_eq_true_eq]
    exact ⟨fun h => ⟨h.1.1, h.1.2, h.2⟩, fun h => ⟨⟨h.ne_nil, h.length⟩, h.chars⟩⟩
  constructor
  · exact fun h => (hascii (ascii_of_valid h)).mp h
  · exact fun h => (hascii (ascii_of_plain h)).mpr h

end Names

theorem filterMap_validName (texts : List Str) :
    texts.filterMap validName = texts.filter isValidMinecraftUsername := by
  rw [← List.filterMap_eq_filter]
  rfl

section Bounds
variable {expiry : Cache.OptionalValueExpiry} {config : Batch.BatchConfig}
  {client : MojangHttpClient U} {s : State} {es : List Event}

theorem names_le (h : (system expiry config client).run es = some s) :
    (s.lookup.processor.calls.map List.length).sum ≤
      ((nameTexts es).filter isValidMinecraftUsername).length := by
  have hlookup := lookup_simulation.reachable (Machine.reachable_of_run h)
  rw [← filterMap_validName, ← (hears_run h).names.called]
  have hcalls := (Lookup.usernames_bounds hlookup).2.2
  have hspent := (Lookup.reachable_coherent hlookup).spent_le
  have hlength : s.lookup.cache.callers.length = s.lookup.requests.length := by
    simpa using congrArg List.length (Lookup.reachable_linked hlookup).keys
  omega

theorem skins_le (h : (system expiry config client).run es = some s) :
    s.skins.loads.length ≤
      ((uuidTexts es).filterMap (parseMinecraftUuid client.libraries.parseStr)).length := by
  rw [← (hears_run h).uuids.called, List.length_map]
  have hspent := (reachable_coherent (Machine.reachable_of_run h)).spent_le
  omega

end Bounds

/-- In every run of the application: each call lists between one and `size` distinct names,
all of them valid usernames that clients sent, in lower case; each skin request is for a UUID
that a client spelled in one of the two accepted ways, and only one at a time is on its way
for each UUID; and all names and skins asked for are no more than the valid requests. -/
theorem upstream_asked {U : Type} (expiry : Cache.OptionalValueExpiry) (config : Batch.BatchConfig)
    (client : MojangHttpClient U) (es : List Event) (s : State)
    (h : (system expiry config client).run es = some s) :
    (∀ call ∈ s.lookup.processor.calls, 1 ≤ call.length ∧ call.length ≤ config.size ∧ call.Nodup ∧
      ∀ name ∈ call, PlainName name ∧ ∃ text ∈ nameTexts es,
        isValidMinecraftUsername text = true ∧ asciiLowercase text = name) ∧
    (∀ load ∈ s.skins.loads, ∃ text ∈ uuidTexts es,
      (Compact text ∨ Hyphenated text) ∧
        parseMinecraftUuid client.libraries.parseStr text = some load.key) ∧
    (∀ (i j : ℕ) load load', s.skins.loads[i]? = some load → s.skins.loads[j]? = some load' →
      load.state = .running → load'.state = .running → load.key = load'.key → i = j) ∧
    (s.lookup.processor.calls.map List.length).sum ≤
      ((nameTexts es).filter isValidMinecraftUsername).length ∧
    s.skins.loads.length ≤ ((uuidTexts es).filterMap
      (parseMinecraftUuid client.libraries.parseStr)).length := by
  have hreachable := Machine.reachable_of_run h
  have hlookup := lookup_simulation.reachable hreachable
  have hskins := reachable_coherent hreachable
  have hears := hears_run h
  refine ⟨?_, ?_, hskins.single, ?_, ?_⟩
  · intro call hmem
    have hlimits := (Batch.reachable_limited (Lookup.processor_simulation.reachable hlookup)).calls
    have hasked := Lookup.reachable_asked hlookup call hmem
    refine ⟨(hlimits call hmem).1, (hlimits call hmem).2, hasked.nodup, fun name hname => ?_⟩
    obtain ⟨text, htext, rfl⟩ := hasked.requested name hname
    rw [hears.names.called, filterMap_validName] at htext
    obtain ⟨htext, hvalid⟩ := List.mem_filter.mp htext
    exact ⟨(isValidMinecraftUsername_iff text).mp hvalid, text, htext, hvalid, rfl⟩
  · intro load hmem
    have hkey := SingleFlight.reachable_called (skins_simulation.reachable hreachable) load hmem
    rw [hears.uuids.called] at hkey
    obtain ⟨text, htext, hparse⟩ := List.mem_filterMap.mp hkey
    exact ⟨text, htext, (shape_of_parseMinecraftUuid hparse).1, hparse⟩
  · exact names_le h
  · exact skins_le h

theorem upstream_asked_mixed : ∃ s,
    (system .default Batch.smallConfig productionClient).run mixedRequests = some s ∧
    s.lookup.processor.calls = [["steve".toList]] ∧ PlainName "steve".toList ∧
    s.skins.loads.length ≤ ((uuidTexts mixedRequests).filterMap
      (parseMinecraftUuid readDigits)).length := by
  have hrun : ((system .default Batch.smallConfig productionClient).run mixedRequests).map
      (fun s => s.lookup.processor.calls) = some [["steve".toList]] := by decide +kernel
  obtain ⟨s, hs, hcalls⟩ := Option.map_eq_some_iff.mp hrun
  obtain ⟨hasked, -, -, -, hskins⟩ := upstream_asked .default Batch.smallConfig productionClient
    mixedRequests s hs
  obtain ⟨-, -, -, hnames⟩ := hasked ["steve".toList] (by simp [hcalls])
  exact ⟨s, hs, hcalls, (hnames _ (List.mem_singleton.mpr rfl)).1, hskins⟩

end MojangApi.App
