import MojangApi.Library.Numeral
import MojangApi.Library.PercentEncoding
import MojangApi.Library.Utf8
import MojangApi.Mojang.ProxyUrl
import Mathlib.Data.List.DropRight

/-! # What the `url` crate makes of `http://…`

The documented behaviour the proxies rely on. Tabs and line ends are dropped,
further slashes are skipped, the authority ends at the first delimiter, and the
user information at the last `@` in it.
-/

namespace MojangApi.Mojang
open MojangApi Library

def isTabOrNewline (c : Char) : Bool := c = '\t' || c = '\n' || c = '\r'

def isSlash (c : Char) : Bool := c = '/' || c = '\\'

def endsAuthority (c : Char) : Bool := isSlash c || c = '?' || c = '#'

/-- The characters that do something else in a URL than be part of a host. -/
def isDelimiter (c : Char) : Bool := isTabOrNewline c || endsAuthority c || c = '@'

/-- The host ends at the first colon outside of brackets, and the port follows. -/
def splitHost : Bool → Str → Str × Option Str
  | _, [] => ([], none)
  | inside, c :: text =>
    if c = ':' && !inside then ([], some text)
    else
      let (host, port) := splitHost (if c = '[' then true else if c = ']' then false else inside) text
      (c :: host, port)

structure Authority where
  userinfo : Option Str
  host : Str
  port : Option Str
  tail : Str

/-- How the text after `http://` is divided. -/
def authorityOf (rest : Str) : Authority :=
  let text := (rest.filter fun c => !isTabOrNewline c).dropWhile isSlash
  let authority := text.takeWhile fun c => !endsAuthority c
  let (host, port) := splitHost false (authority.rtakeWhile (· ≠ '@'))
  { userinfo := if '@' ∈ authority then some (authority.rdropWhile (· ≠ '@')).dropLast else none
    host := host
    port := port
    tail := text.dropWhile fun c => !endsAuthority c }

/-- A port that is not written is the default one. -/
def portNumber : Option Str → ℕ
  | none | some [] => 80
  | some digits => Numeral.value 10 (digits.map fun c => c.toNat - '0'.toNat)

/-- The bytes of user information that are percent-encoded: controls, whatever is not ASCII, and
the delimiters and quotes listed here. The percent sign is not one of them. -/
def userinfoSet (byte : UInt8) : Bool :=
  byte < 0x20 || 0x7E < byte ||
    [0x20, 0x22, 0x23, 0x2F, 0x3A, 0x3B, 0x3C, 0x3D, 0x3E, 0x3F, 0x40, 0x5B, 0x5C, 0x5D, 0x5E, 0x60,
      0x7B, 0x7C, 0x7D].contains byte

/-- `utf8_percent_encode` with that set. -/
def encodeUserinfo (s : Str) : Str := Utf8.ofBytes (PercentEncoding.encode userinfoSet s.bytes)

/-- The bytes that percent-decoding recovers. -/
def percentDecode (s : Str) : List UInt8 := PercentEncoding.decode s.bytes

section Laws
variable {U H : Type}

/-- A URL is what the division of its text says. -/
structure Reads (url : UrlCrate U H) (authority : Authority) (u : U) : Prop where
  scheme : url.scheme u = "http".toList
  host : url.host u = url.parseHost authority.host
  host_some : (url.parseHost authority.host).isSome = true
  port : url.portOrKnownDefault u = some (portNumber authority.port)
  path : authority.tail = [] → url.path u = ['/'] ∧ url.query u = none ∧ url.fragment u = none
  userinfo : authority.userinfo = none → url.username u = [] ∧ url.password u = none

/-- Two URLs that differ in user information only. -/
structure SameAddress (url : UrlCrate U H) (u v : U) : Prop where
  scheme : url.scheme v = url.scheme u
  host : url.host v = url.host u
  port : url.portOrKnownDefault v = url.portOrKnownDefault u
  path : url.path v = url.path u
  query : url.query v = url.query u
  fragment : url.fragment v = url.fragment u

/-- The documented behaviour of the crate. Text that is parsed may end in blanks, which are
trimmed; this is left out here, since the texts of proxies end in a digit. -/
structure Lawful (url : UrlCrate U H) : Prop where
  parse : ∀ rest u, (∀ c ∈ rest.getLast?, ' ' < c) → url.parse ("http://".toList ++ rest) = some u →
    Reads url (authorityOf rest) u
  host_chars : ∀ text, (url.parseHost text).isSome = true → ∀ c ∈ text, isDelimiter c = false
  host_brackets : ∀ text, (url.parseHost text).isSome = true → '[' ∈ text →
    text.getLast? = some ']'
  setUsername : ∀ u username, url.scheme u = "http".toList → (url.host u).isSome = true →
    ∃ v, url.setUsername u username = some v ∧ SameAddress url u v ∧
      url.username v = encodeUserinfo username ∧ url.password v = url.password u
  setPassword : ∀ u password, url.scheme u = "http".toList → (url.host u).isSome = true →
    ∃ v, url.setPassword u (some password) = some v ∧ SameAddress url u v ∧
      url.username v = url.username u ∧
      url.password v = if password = [] then none else some (encodeUserinfo password)

end Laws

section Division
variable {host port : Str}

/-- Whether a colon after this text would stand inside brackets. -/
def insideBrackets (inside : Bool) (text : Str) : Bool :=
  text.foldl (fun inside c => if c = '[' then true else if c = ']' then false else inside) inside

theorem mem_of_insideBrackets {inside : Bool} (h : insideBrackets inside host = true) :
    inside = true ∨ '[' ∈ host := by
  induction host generalizing inside with
  | nil => exact .inl h
  | cons c host ih =>
    have hhost := @ih (if c = '[' then true else if c = ']' then false else inside) h
    rcases hhost with h | h
    · by_cases hc : c = '['
      · exact .inr (by simp [hc])
      · rw [if_neg hc] at h
        split at h
        · cases h
        · exact .inl h
    · exact .inr (List.mem_cons_of_mem c h)

theorem splitHost_append (inside : Bool) (h : ':' ∉ host) :
    splitHost inside (host ++ ':' :: port) = if insideBrackets inside host
      then (host ++ ':' :: (splitHost true port).1, (splitHost true port).2)
      else (host, some port) := by
  induction host generalizing inside with
  | nil => cases inside <;> rfl
  | cons c host ih =>
    rw [List.mem_cons, not_or] at h
    have hc : (decide (c = ':') && !inside) = false := by simp [Ne.symm h.1]
    have hnext : insideBrackets inside (c :: host) = insideBrackets
      (if c = '[' then true else if c = ']' then false else inside) host := rfl
    rw [List.cons_append, splitHost, hc, ih _ h.2, hnext]
    cases insideBrackets (if c = '[' then true else if c = ']' then false else inside) host <;> rfl

theorem splitHost_none (inside : Bool) (h : ':' ∉ port) : splitHost inside port = (port, none) := by
  induction port generalizing inside with
  | nil => rfl
  | cons c port ih =>
    rw [List.mem_cons, not_or] at h
    have hc : (decide (c = ':') && !inside) = false := by simp [Ne.symm h.1]
    rw [splitHost, hc, ih _ h.2]
    rfl

/-- A class of characters that none of the eight belongs to. -/
theorem not_isDelimiter {p : Char → Bool} {c : Char}
    (hp : ['\t', '\n', '\r', '/', '\\', '?', '#', '@'].any p = false) (h : p c = true) :
    isDelimiter c = false := by
  cases hc : isDelimiter c with
  | false => rfl
  | true =>
    have hmem : c ∈ ['\t', '\n', '\r', '/', '\\', '?', '#', '@'] := by
      simpa only [isDelimiter, isTabOrNewline, endsAuthority, isSlash, Bool.or_eq_true,
        decide_eq_true_eq, or_assoc, List.mem_cons, List.not_mem_nil, or_false] using hc
    exact absurd h (List.any_eq_false.mp hp c hmem)

theorem isDelimiter_false {c : Char} (h : isDelimiter c = false) :
    isTabOrNewline c = false ∧ endsAuthority c = false ∧ c ≠ '@' := by
  simpa only [isDelimiter, Bool.or_eq_false_iff, decide_eq_false_iff_not, and_assoc] using h

/-- Text without delimiters before a port is a host, or is still inside a bracket at its end. -/
theorem authorityOf_plain (hne : host ≠ []) (hhost : ':' ∉ host) (hport : ':' ∉ port)
    (hplain : ∀ c ∈ host ++ ':' :: port, isDelimiter c = false) :
    authorityOf (host ++ ':' :: port) =
      if insideBrackets false host then ⟨none, host ++ ':' :: port, none, []⟩
      else ⟨none, host, some port, []⟩ := by
  have hchars := fun c hc => isDelimiter_false (hplain c hc)
  have hfilter : (host ++ ':' :: port).filter (fun c => !isTabOrNewline c) = host ++ ':' :: port :=
    List.filter_eq_self.mpr fun c hc => by simp [(hchars c hc).1]
  have hslash : (host ++ ':' :: port).dropWhile isSlash = host ++ ':' :: port := by
    obtain ⟨c, text, rfl⟩ := List.exists_cons_of_ne_nil hne
    have hends : endsAuthority c = false := (hchars c (by simp)).2.1
    simp only [endsAuthority, Bool.or_eq_false_iff] at hends
    exact List.dropWhile_cons_of_neg (by simp [hends.1.1])
  have htake : (host ++ ':' :: port).takeWhile (fun c => !endsAuthority c) = host ++ ':' :: port :=
    List.takeWhile_eq_self_iff.mpr fun c hc => by simp [(hchars c hc).2.1]
  have hdrop : (host ++ ':' :: port).dropWhile (fun c => !endsAuthority c) = [] :=
    List.dropWhile_eq_nil_iff.mpr fun c hc => by simp [(hchars c hc).2.1]
  have hat : '@' ∉ host ++ ':' :: port := fun hmem => (hchars '@' hmem).2.2 rfl
  have hlast : (host ++ ':' :: port).rtakeWhile (· ≠ '@') = host ++ ':' :: port :=
    List.rtakeWhile_eq_self_iff.mpr fun c hc => by simpa using (hchars c hc).2.2
  simp only [authorityOf, hfilter, hslash, htake, hdrop, hlast, if_neg hat,
    splitHost_append false hhost, splitHost_none true hport]
  split <;> rfl

end Division

section Port
variable {c : Char} {n : ℕ}

theorem isDigit_of_mem (h : c ∈ Nat.toDigits 10 n) : c.isDigit = true :=
  Nat.isDigit_of_mem_toDigits (by decide) (by decide) h

theorem isDelimiter_digit (h : c.isDigit = true) : isDelimiter c = false :=
  not_isDelimiter rfl h

theorem colon_notMem_toDigits : ':' ∉ Nat.toDigits 10 n := fun h =>
  absurd (isDigit_of_mem h) (by decide)

/-- A number that was written is read back. -/
theorem portNumber_toDigits (n : ℕ) : portNumber (some (Nat.toDigits 10 n)) = n := by
  have hread := @Nat.ofDigitChars_ten_toDigits n
  rw [Nat.ofDigitChars_eq_foldl] at hread
  cases hdigits : Nat.toDigits 10 n with
  | nil => exact absurd hdigits Nat.toDigits_ne_nil
  | cons c text =>
    rw [portNumber, Numeral.value, List.foldl_map, ← hdigits]
    · exact hread
    · exact List.cons_ne_nil c text

/-- Text that ends in a number ends in a digit. -/
theorem getLast?_toDigits (text : Str) : ∃ c, (text ++ ':' :: Nat.toDigits 10 n).getLast? = some c ∧
    c.isDigit = true := by
  have hlast := List.getLast?_eq_some_getLast (@Nat.toDigits_ne_nil n 10)
  refine ⟨(Nat.toDigits 10 n).getLast Nat.toDigits_ne_nil, ?_, isDigit_of_mem (List.getLast_mem _)⟩
  rw [List.getLast?_append, List.getLast?_cons, hlast]
  rfl

end Port

section Lawful
variable {U H : Type} {url : UrlCrate U H} {host username password : Str} {number : ℕ} {address : U}

theorem SameAddress.trans {u v w : U} (huv : SameAddress url u v) (hvw : SameAddress url v w) :
    SameAddress url u w where
  scheme := hvw.scheme.trans huv.scheme
  host := hvw.host.trans huv.host
  port := hvw.port.trans huv.port
  path := hvw.path.trans huv.path
  query := hvw.query.trans huv.query
  fragment := hvw.fragment.trans huv.fragment

/-- The text of a proxy is read as the division of it says. -/
theorem Lawful.reads (hlaw : Lawful url) (h : url.parse (proxyText host number) = some address) :
    Reads url (authorityOf (host ++ ':' :: Nat.toDigits 10 number)) address := by
  obtain ⟨c, hlast, hdigit⟩ := @getLast?_toDigits number host
  refine hlaw.parse _ address (fun d hd => ?_) (by rwa [← List.append_assoc])
  obtain rfl := Option.some.inj (hlast.symm.trans hd)
  have hzero := (Char.isDigit_iff_toNat.mp hdigit).1
  exact Nat.lt_of_lt_of_le (by decide) hzero

theorem Reads.host_isSome {authority : Authority} (h : Reads url authority address) :
    (url.host address).isSome = true := by
  rw [h.host]
  exact h.host_some

/-- Both setters succeed where there is a host, and change nothing but the user information. -/
theorem Lawful.withCredentials (hlaw : Lawful url) (hscheme : url.scheme address = "http".toList)
    (hhost : (url.host address).isSome = true) (husername : username ≠ []) :
    ∃ proxy, withCredentials url address (some username) (some password) = .ok proxy ∧
      SameAddress url address proxy ∧ url.username proxy = encodeUserinfo username ∧
      url.password proxy = if password = [] then none else some (encodeUserinfo password) := by
  obtain ⟨named, hnamed, hsame, hname, -⟩ := hlaw.setUsername address username hscheme hhost
  obtain ⟨proxy, hproxy, hsame', hname', hpassword⟩ := hlaw.setPassword named password
    (hsame.scheme.trans hscheme) (by rwa [hsame.host])
  refine ⟨proxy, ?_, hsame.trans hsame', hname'.trans hname, hpassword⟩
  simp only [MojangApi.Mojang.withCredentials, hnamed, hproxy]
  exact if_neg (by simpa using husername)

end Lawful
end MojangApi.Mojang
