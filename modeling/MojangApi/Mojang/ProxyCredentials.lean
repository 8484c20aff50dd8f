import MojangApi.Mojang.PlainUrl

/-! # Credentials of a proxy

They are encoded by the URL and decoded by the HTTP client. The encoder leaves a
percent sign alone, so credentials that look escaped to begin with are decoded
once too often; all others come back as they were written.
-/

namespace MojangApi.Mojang
open MojangApi Library

section UserinfoSet

theorem userinfoSet_keepsEscapes : PercentEncoding.KeepsEscapes userinfoSet where
  percent := rfl
  hex := by
    have htable : ∀ n < 256, (PercentEncoding.hexValue (UInt8.ofNat n)).isSome = true →
        userinfoSet (UInt8.ofNat n) = false := by decide +kernel
    intro byte hhex
    rw [← UInt8.ofNat_toNat (x := byte)] at hhex ⊢
    exact htable byte.toNat byte.toNat_lt hhex

theorem userinfoSet_ascii (byte : UInt8) (h : userinfoSet byte = false) : byte.toNat < 128 := by
  simp only [userinfoSet, Bool.or_eq_false_iff, decide_eq_false_iff_not] at h
  have hle := UInt8.not_lt.mp h.1.2
  exact Nat.lt_succ_of_le (Nat.le_trans hle (by decide))

/-- Encoded text decodes to the bytes it came from, or to fewer where it looked escaped. -/
theorem percentDecode_encodeUserinfo (s : Str) :
    percentDecode (encodeUserinfo s) = s.bytes ↔ PercentEncoding.hasEscape s.bytes = false := by
  have hascii := PercentEncoding.encode_ascii userinfoSet_ascii s.bytes
  have hbytes : (encodeUserinfo s).bytes = PercentEncoding.encode userinfoSet s.bytes :=
    Utf8.flatMap_ofBytes hascii
  rw [percentDecode, hbytes]
  exact PercentEncoding.decode_encode_iff userinfoSet_keepsEscapes

end UserinfoSet

section Credentials
variable {U H : Type} {url : UrlCrate U H} {host port username password : Str} {proxy : U}

/-- The user information of a URL decodes to these. -/
structure Carries (url : UrlCrate U H) (username password : Str) (proxy : U) : Prop where
  username : percentDecode (url.username proxy) = username.bytes
  password : ∃ text, url.password proxy = some text ∧ percentDecode text = password.bytes

theorem carries_iff (husername : url.username proxy = encodeUserinfo username)
    (hpassword : url.password proxy = some (encodeUserinfo password)) :
    Carries url username password proxy ↔ PercentEncoding.hasEscape username.bytes = false ∧
      PercentEncoding.hasEscape password.bytes = false := by
  rw [← percentDecode_encodeUserinfo, ← percentDecode_encodeUserinfo]
  constructor
  · rintro ⟨hname, text, htext, hword⟩
    obtain rfl := Option.some.inj (hpassword.symm.trans htext)
    exact ⟨husername ▸ hname, hword⟩
  · rintro ⟨hname, hword⟩
    exact ⟨husername ▸ hname, encodeUserinfo password, hpassword, hword⟩

/-- The same address with user information after it. -/
theorem proxyOf_credentials {number : ℕ} {address : U} (hhost : host ≠ [])
    (hnumber : parseU16 port = some number)
    (haddress : url.parse (proxyText host number) = some address) :
    proxyOf url (some host) (some port) (some username) (some password) =
      withCredentials url address (some username) (some password) := by
  have hport : port ≠ [] := fun hnil => by
    rw [hnil] at hnumber
    cases hnumber
  have hhost' : (some host).filter (fun part => !part.isEmpty) = some host :=
    Option.filter_some_pos (by simpa using hhost)
  have hport' : (some port).filter (fun part => !part.isEmpty) = some port :=
    Option.filter_some_pos (by simpa using hport)
  simp only [proxyOf, hhost', hport', hnumber, haddress]

/-- Credentials after an accepted address are accepted, and come back exactly when neither of them
contains a percent sign before two hex digits. -/
theorem parseProxyUrl_carries_iff {address : U} (hlaw : Lawful url) (hhost : ':' ∉ host)
    (hport : ':' ∉ port) (haccepted : parseProxyUrl url (host ++ ':' :: port) = .ok address)
    (hcolon : ':' ∉ username) (husername : username ≠ []) (hpassword : password ≠ []) :
    ∃ proxy,
      parseProxyUrl url (host ++ ':' :: (port ++ ':' :: (username ++ ':' :: password))) = .ok proxy ∧
      (Carries url username password proxy ↔ PercentEncoding.hasEscape username.bytes = false ∧
        PercentEncoding.hasEscape password.bytes = false) := by
  rw [parseProxyUrl_two hhost hport] at haccepted
  obtain ⟨number, parsed, hne, hnumber, hparsed, -⟩ := proxyOf_ok haccepted
  have hreads := hlaw.reads hparsed
  obtain ⟨proxy, hproxy, -, hname, hword⟩ := @Lawful.withCredentials U H url username password
    parsed hlaw hreads.scheme hreads.host_isSome husername
  rw [if_neg hpassword] at hword
  refine ⟨proxy, ?_, carries_iff hname hword⟩
  rw [parseProxyUrl_four hhost hport hcolon, proxyOf_credentials hne hnumber hparsed, hproxy]

theorem parseProxyUrl_carries_colon : ∃ proxy,
    parseProxyUrl plainUrl "proxy.example:3128:user:pass:word".toList = .ok proxy ∧
      Carries plainUrl "user".toList "pass:word".toList proxy := by
  have haccepted : parseProxyUrl plainUrl ("proxy.example".toList ++ ':' :: "3128".toList) =
      .ok ⟨"proxy.example".toList, 3128, ['/'], none, none, [], none⟩ := by decide +kernel
  obtain ⟨proxy, hproxy, hcarries⟩ := @parseProxyUrl_carries_iff _ _ _ _ _ "user".toList
    "pass:word".toList _ plainUrl_lawful (by decide +kernel) (by decide +kernel) haccepted
    (by decide +kernel) (by decide +kernel) (by decide +kernel)
  exact ⟨proxy, hproxy, hcarries.mpr (by decide +kernel)⟩

/-- The password `50%25off` reaches the proxy as `50%off`. -/
theorem parseProxyUrl_decodes_twice : ∃ proxy,
    parseProxyUrl plainUrl "proxy.example:3128:user:50%25off".toList = .ok proxy ∧
      (plainUrl.password proxy).map percentDecode = some (Str.bytes "50%off".toList) ∧
      ¬ Carries plainUrl "user".toList "50%25off".toList proxy := by
  refine ⟨⟨"proxy.example".toList, 3128, ['/'], none, none, "user".toList,
    some "50%25off".toList⟩, by decide +kernel, by decide +kernel, fun h => ?_⟩
  obtain ⟨text, htext, hword⟩ := h.password
  obtain rfl := Option.some.inj htext
  exact absurd hword (by decide +kernel)

end Credentials
end MojangApi.Mojang
