import MojangApi.Types

/-! # `parse_proxy_url`

A line is split at its first three colons. The first two pieces are pasted into
the text of a URL, which the `url` crate reads again by rules of its own; the
other two are handed to it as they are.
-/

namespace MojangApi.Mojang
open MojangApi

inductive ProxyParseError where
  | format
  | port
  | credentials
  deriving DecidableEq, Repr

/-- What is used of the `url` crate; a failure is `none`. -/
structure UrlCrate (U H : Type) where
  parse : Str → Option U
  parseHost : Str → Option H
  scheme : U → Str
  host : U → Option H
  portOrKnownDefault : U → Option ℕ
  path : U → Str
  query : U → Option Str
  fragment : U → Option Str
  username : U → Str
  password : U → Option Str
  setUsername : U → Str → Option U
  setPassword : U → Option Str → Option U

/-- A string around the first occurrence of a separator. -/
def splitOnce (sep : Char) (s : Str) : Option (Str × Str) :=
  if sep ∈ s then some (s.takeWhile (· ≠ sep), (s.dropWhile (· ≠ sep)).tail) else none

/-- At most this many pieces, the last of which is all that is left. -/
def splitn (sep : Char) : ℕ → Str → List Str
  | 0, _ => []
  | 1, s => [s]
  | n + 2, s =>
    match splitOnce sep s with
    | none => [s]
    | some (piece, rest) => piece :: splitn sep (n + 1) rest

def parseU16 (s : Str) : Option ℕ := parseUnsigned 16 s

/-- The text `http://{host}:{port}`. -/
def proxyText (host : Str) (port : ℕ) : Str :=
  "http://".toList ++ host ++ ':' :: Nat.toDigits 10 port

section Parse
variable {U H : Type} (url : UrlCrate U H)

/-- The URL with the user information of a line, if it has any. -/
def withCredentials (proxy : U) : Option Str → Option Str → Except ProxyParseError U
  | some username, some password =>
    if username.isEmpty then .error .format
    else match url.setUsername proxy username with
      | none => .error .credentials
      | some proxy =>
        match url.setPassword proxy (some password) with
        | none => .error .credentials
        | some proxy => .ok proxy
  | none, none => .ok proxy
  | _, _ => .error .format

/-- The URL of the fields a line was split into. -/
def proxyOf (host port username password : Option Str) : Except ProxyParseError U :=
  match host.filter (fun part => !part.isEmpty), port.filter (fun part => !part.isEmpty) with
  | some host, some port =>
    match parseU16 port with
    | none => .error .port
    | some port =>
      match url.parse (proxyText host port) with
      | none => .error .format
      | some proxy => withCredentials url proxy username password
  | _, _ => .error .format

def parseProxyUrl (value : Str) : Except ProxyParseError U :=
  let parts := splitn ':' 4 value
  proxyOf url parts[0]? parts[1]? parts[2]? parts[3]?

end Parse

section Split
variable {sep : Char} {s rest : Str}

theorem splitOnce_append (h : sep ∉ s) : splitOnce sep (s ++ sep :: rest) = some (s, rest) := by
  have hs : ∀ c ∈ s, decide (c ≠ sep) = true := fun c hc => by
    simpa using fun heq : c = sep => h (heq ▸ hc)
  have htake : (s ++ sep :: rest).takeWhile (· ≠ sep) = s := by
    rw [List.takeWhile_append_of_pos hs]
    simp
  have hdrop : (s ++ sep :: rest).dropWhile (· ≠ sep) = sep :: rest := by
    rw [List.dropWhile_append_of_pos hs]
    simp
  rw [splitOnce, if_pos (by simp), htake, hdrop, List.tail_cons]

theorem splitOnce_none (h : sep ∉ s) : splitOnce sep s = none := if_neg h

/-- How many of the first three colons a line has. -/
theorem line_cases (line : Str) : ':' ∉ line ∨
    (∃ host port, ':' ∉ host ∧ ':' ∉ port ∧ line = host ++ ':' :: port) ∨
    (∃ host port username, ':' ∉ host ∧ ':' ∉ port ∧ ':' ∉ username ∧
      line = host ++ ':' :: (port ++ ':' :: username)) ∨
    ∃ host port username password, ':' ∉ host ∧ ':' ∉ port ∧ ':' ∉ username ∧
      line = host ++ ':' :: (port ++ ':' :: (username ++ ':' :: password)) := by
  by_cases hfirst : ':' ∈ line
  · obtain ⟨host, line, rfl, hhost⟩ := List.eq_append_cons_of_mem hfirst
    by_cases hsecond : ':' ∈ line
    · obtain ⟨port, line, rfl, hport⟩ := List.eq_append_cons_of_mem hsecond
      by_cases hthird : ':' ∈ line
      · obtain ⟨username, password, rfl, husername⟩ := List.eq_append_cons_of_mem hthird
        exact .inr (.inr (.inr ⟨host, port, username, password, hhost, hport, husername, rfl⟩))
      · exact .inr (.inr (.inl ⟨host, port, line, hhost, hport, hthird, rfl⟩))
    · exact .inr (.inl ⟨host, line, hhost, hsecond, rfl⟩)
  · exact .inl hfirst

end Split

section Fields
variable {U H : Type} {url : UrlCrate U H} {host port username password line : Str}

theorem parseProxyUrl_one (h : ':' ∉ line) : parseProxyUrl url line = .error .format := by
  simp only [parseProxyUrl, splitn, splitOnce_none h]
  unfold proxyOf
  split
  · rename_i hport
    cases hport
  · rfl

theorem parseProxyUrl_two (hhost : ':' ∉ host) (hport : ':' ∉ port) :
    parseProxyUrl url (host ++ ':' :: port) = proxyOf url (some host) (some port) none none := by
  simp only [parseProxyUrl, splitn, splitOnce_append hhost, splitOnce_none hport]
  rfl

theorem parseProxyUrl_three (hhost : ':' ∉ host) (hport : ':' ∉ port) (husername : ':' ∉ username) :
    parseProxyUrl url (host ++ ':' :: (port ++ ':' :: username)) =
      proxyOf url (some host) (some port) (some username) none := by
  simp only [parseProxyUrl, splitn, splitOnce_append hhost, splitOnce_append hport,
    splitOnce_none husername]
  rfl

theorem parseProxyUrl_four (hhost : ':' ∉ host) (hport : ':' ∉ port) (husername : ':' ∉ username) :
    parseProxyUrl url (host ++ ':' :: (port ++ ':' :: (username ++ ':' :: password))) =
      proxyOf url (some host) (some port) (some username) (some password) := by
  simp only [parseProxyUrl, splitn, splitOnce_append hhost, splitOnce_append hport,
    splitOnce_append husername]
  rfl

/-- What went before a proxy that was accepted. -/
theorem proxyOf_ok {username password : Option Str} {proxy : U}
    (h : proxyOf url (some host) (some port) username password = .ok proxy) :
    ∃ number address, host ≠ [] ∧ parseU16 port = some number ∧
      url.parse (proxyText host number) = some address ∧
      withCredentials url address username password = .ok proxy := by
  unfold proxyOf at h
  split at h
  · rename_i hhost hport
    obtain ⟨hhost, hne⟩ := Option.filter_eq_some_iff.mp hhost
    obtain rfl := Option.some.inj hhost
    obtain rfl := Option.some.inj (Option.filter_eq_some_iff.mp hport).1
    split at h
    · cases h
    · rename_i number hnumber
      split at h
      · cases h
      · rename_i address haddress
        exact ⟨number, address, by simpa using hne, hnumber, haddress, h⟩
  · cases h

theorem withCredentials_some {address proxy : U}
    (h : withCredentials url address (some username) (some password) = .ok proxy) :
    username ≠ [] ∧ ∃ named, url.setUsername address username = some named ∧
      url.setPassword named (some password) = some proxy := by
  simp only [withCredentials] at h
  split at h
  · cases h
  · rename_i hne
    split at h
    · cases h
    · rename_i named hnamed
      split at h
      · cases h
      · rename_i hproxy
        obtain rfl := Except.ok.inj h
        exact ⟨by simpa using hne, named, hnamed, hproxy⟩

end Fields
end MojangApi.Mojang
