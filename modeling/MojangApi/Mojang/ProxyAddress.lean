import MojangApi.Mojang.PlainUrl

/-! # Host and port of a proxy

A line whose first field contains a delimiter of URLs is not rejected: the part
of it that the `url` crate takes for the host is dialled instead, on a port that
the line may not have named. Any other line is the proxy that it says it is.
-/

namespace MojangApi.Mojang
open MojangApi Library

/-- The text before the first colon. -/
def hostField (line : Str) : Str := line.takeWhile (· ≠ ':')

/-- The text between the first colon and the second. -/
def portField (line : Str) : Str := ((line.dropWhile (· ≠ ':')).tail).takeWhile (· ≠ ':')

section Fields
variable {host port rest : Str}

theorem hostField_append (h : ':' ∉ host) : hostField (host ++ ':' :: rest) = host :=
  (Prod.mk.inj (Option.some.inj ((if_pos (by simp)).symm.trans (splitOnce_append h)))).1

theorem portField_append (h : ':' ∉ host) :
    portField (host ++ ':' :: rest) = rest.takeWhile (· ≠ ':') := by
  have hrest : ((host ++ ':' :: rest).dropWhile (· ≠ ':')).tail = rest :=
    (Prod.mk.inj (Option.some.inj ((if_pos (by simp)).symm.trans (splitOnce_append h)))).2
  rw [portField, hrest]

theorem portField_last (hhost : ':' ∉ host) (hport : ':' ∉ port) :
    portField (host ++ ':' :: port) = port := by
  rw [portField_append hhost]
  exact List.takeWhile_eq_self_iff.mpr fun c hc => by
    simpa using fun heq : c = ':' => hport (heq ▸ hc)

theorem portField_inner (hhost : ':' ∉ host) (hport : ':' ∉ port) :
    portField (host ++ ':' :: (port ++ ':' :: rest)) = port := by
  rw [portField_append hhost]
  exact hostField_append hport

theorem colon_notMem_hostField (line : Str) : ':' ∉ hostField line := fun h => by
  simpa using List.mem_takeWhile_imp h

end Fields

section Address
variable {U H : Type} {url : UrlCrate U H} {host line : Str} {number : ℕ} {address proxy : U}

/-- The proxy is the one that the line names. -/
structure Names (url : UrlCrate U H) (line : Str) (proxy : U) : Prop where
  host : url.host proxy = url.parseHost (hostField line)
  host_some : (url.parseHost (hostField line)).isSome = true
  port : ∃ number, parseU16 (portField line) = some number ∧
    url.portOrKnownDefault proxy = some number
  path : url.path proxy = ['/']
  query : url.query proxy = none
  fragment : url.fragment proxy = none
  userinfo : line.count ':' < 3 → url.username proxy = [] ∧ url.password proxy = none

/-- What is known of a line that was accepted. -/
theorem parseProxyUrl_ok (h : parseProxyUrl url line = .ok proxy) :
    ∃ number address, hostField line ≠ [] ∧ parseU16 (portField line) = some number ∧
      url.parse (proxyText (hostField line) number) = some address ∧
      (proxy = address ∨ 3 ≤ line.count ':' ∧ ∃ username password,
        withCredentials url address (some username) (some password) = .ok proxy) := by
  obtain hone | ⟨host, port, hhost, hport, rfl⟩ |
    ⟨host, port, username, hhost, hport, husername, rfl⟩ |
    ⟨host, port, username, password, hhost, hport, husername, rfl⟩ := line_cases line
  · rw [parseProxyUrl_one hone] at h
    cases h
  · rw [parseProxyUrl_two hhost hport] at h
    obtain ⟨number, address, hne, hnumber, haddress, h⟩ := proxyOf_ok h
    rw [hostField_append hhost, portField_last hhost hport]
    exact ⟨number, address, hne, hnumber, haddress, .inl (Except.ok.inj h).symm⟩
  · rw [parseProxyUrl_three hhost hport husername] at h
    obtain ⟨number, address, -, -, -, h⟩ := proxyOf_ok h
    cases h
  · rw [parseProxyUrl_four hhost hport husername] at h
    obtain ⟨number, address, hne, hnumber, haddress, h⟩ := proxyOf_ok h
    rw [hostField_append hhost, portField_inner hhost hport]
    refine ⟨number, address, hne, hnumber, haddress, .inr ⟨?_, username, password, h⟩⟩
    simp only [List.count_append, List.count_cons_self]
    omega

/-- Without delimiters in the host, the text is divided where it was pasted together. -/
theorem Lawful.reads_plain (hlaw : Lawful url) (hne : host ≠ []) (hhost : ':' ∉ host)
    (hplain : ∀ c ∈ host, isDelimiter c = false)
    (h : url.parse (proxyText host number) = some address) :
    Reads url ⟨none, host, some (Nat.toDigits 10 number), []⟩ address := by
  have hreads := hlaw.reads h
  have htext : ∀ c ∈ host ++ ':' :: Nat.toDigits 10 number, isDelimiter c = false := by
    simp only [List.mem_append, List.mem_cons]
    rintro c (hc | rfl | hc)
    · exact hplain c hc
    · rfl
    · exact isDelimiter_digit (isDigit_of_mem hc)
  rw [authorityOf_plain hne hhost colon_notMem_toDigits htext] at hreads
  cases hinside : insideBrackets false host with
  | false => rwa [hinside, if_neg Bool.false_ne_true] at hreads
  | true =>
    -- A bracket that is open at the colon is not closed in the digits either.
    rw [hinside, if_pos rfl] at hreads
    have hbracket : '[' ∈ host := (mem_of_insideBrackets hinside).resolve_left Bool.false_ne_true
    have hlast := hlaw.host_brackets _ hreads.host_some (List.mem_append_left _ hbracket)
    obtain ⟨c, hc, hdigit⟩ := @getLast?_toDigits number host
    obtain rfl := Option.some.inj (hc.symm.trans hlast)
    cases hdigit

theorem Reads.names (hreads : Reads url ⟨none, hostField line, some (Nat.toDigits 10 number), []⟩
    address) (hnumber : parseU16 (portField line) = some number) : Names url line address where
  host := hreads.host
  host_some := hreads.host_some
  port := ⟨number, hnumber, by rw [hreads.port, portNumber_toDigits]⟩
  path := (hreads.path rfl).1
  query := (hreads.path rfl).2.1
  fragment := (hreads.path rfl).2.2
  userinfo := fun _ => hreads.userinfo rfl

/-- User information does not change which proxy it is. -/
theorem Names.sameAddress (h : Names url line address) (hsame : SameAddress url address proxy)
    (hfields : 3 ≤ line.count ':') : Names url line proxy where
  host := hsame.host.trans h.host
  host_some := h.host_some
  port := h.port.imp fun _ hport => ⟨hport.1, hsame.port.trans hport.2⟩
  path := hsame.path.trans h.path
  query := hsame.query.trans h.query
  fragment := hsame.fragment.trans h.fragment
  userinfo := fun hfew => absurd hfields (Nat.not_le.mpr hfew)

/-- A line whose host field has no delimiter in it is the proxy it names. -/
theorem Lawful.names (hlaw : Lawful url) (h : parseProxyUrl url line = .ok proxy)
    (hplain : ∀ c ∈ hostField line, isDelimiter c = false) : Names url line proxy := by
  obtain ⟨number, address, hne, hnumber, haddress, hproxy⟩ := parseProxyUrl_ok h
  have hreads := hlaw.reads_plain hne (colon_notMem_hostField line) hplain haddress
  have hnames : Names url line address := hreads.names hnumber
  obtain rfl | ⟨hfields, username, password, hproxy⟩ := hproxy
  · exact hnames
  · have husername : username ≠ [] := (withCredentials_some hproxy).1
    obtain ⟨proxy', hproxy', hsame, -⟩ := @Lawful.withCredentials U H url username password address
      hlaw hreads.scheme hreads.host_isSome husername
    obtain rfl := Except.ok.inj (hproxy'.symm.trans hproxy)
    exact hnames.sameAddress hsame hfields

/-- An accepted line is the proxy it names exactly when its host field has no delimiter in it. -/
theorem parseProxyUrl_names_iff (hlaw : Lawful url) (h : parseProxyUrl url line = .ok proxy) :
    Names url line proxy ↔ ∀ c ∈ hostField line, isDelimiter c = false :=
  ⟨fun hnames => hlaw.host_chars _ hnames.host_some, hlaw.names h⟩

theorem parseProxyUrl_names_plain : Names plainUrl "proxy.example:3128".toList
    ⟨"proxy.example".toList, 3128, ['/'], none, none, [], none⟩ := by
  have hchars : (hostField "proxy.example:3128".toList).all isNameChar = true := by decide +kernel
  apply (parseProxyUrl_names_iff plainUrl_lawful (by decide +kernel)).mpr
  intro c hc
  exact not_isDelimiter rfl (List.all_eq_true.mp hchars c hc)

/-- The port becomes a part of the path, and the proxy is dialled on port 80. -/
theorem parseProxyUrl_misnames : ∃ proxy,
    parseProxyUrl plainUrl "proxy.example/:8080".toList = .ok proxy ∧
      plainUrl.portOrKnownDefault proxy = some 80 ∧
      ¬ Names plainUrl "proxy.example/:8080".toList proxy :=
  ⟨⟨"proxy.example".toList, 80, "/:8080".toList, none, none, [], none⟩, by decide +kernel, rfl,
    fun h => absurd h.host_some (by decide +kernel)⟩

end Address
end MojangApi.Mojang
