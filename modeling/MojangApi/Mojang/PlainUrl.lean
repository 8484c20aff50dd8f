import MojangApi.Mojang.HttpUrl

/-! # A small URL crate

Hosts are names of letters, digits, dots and hyphens, in lower case once read.
That is enough to run the lines of a proxy file, and to see that the behaviour
assumed of the `url` crate can be had.
-/

namespace MojangApi.Mojang
open MojangApi Library

structure PlainUrl where
  host : Str
  port : ℕ
  path : Str
  query : Option Str
  fragment : Option Str
  username : Str
  password : Option Str
  deriving DecidableEq, Repr

def isNameChar (c : Char) : Bool := c.isAlphanum || c = '.' || c = '-'

def plainHost (text : Str) : Option Str :=
  if !text.isEmpty && text.all isNameChar then some (text.map Char.toLower) else none

/-- Nothing, or digits of a number below 65536. -/
def isPort : Option Str → Bool
  | none => true
  | some digits => digits.all Char.isDigit && portNumber (some digits) < 2 ^ 16

/-- The name and the password before an `@`. -/
def plainUserinfo : Option Str → Str × Option Str
  | none => ([], none)
  | some userinfo =>
    match splitOnce ':' userinfo with
    | none => (encodeUserinfo userinfo, none)
    | some (username, password) =>
      (encodeUserinfo username, if password = [] then none else some (encodeUserinfo password))

/-- Path, query and fragment of what follows the authority. -/
def plainTail (tail : Str) : Str × Option Str × Option Str :=
  let (path, query) := match splitOnce '?' (tail.takeWhile (· ≠ '#')) with
    | none => (tail.takeWhile (· ≠ '#'), none)
    | some (path, query) => (path, some query)
  (if path = [] then ['/'] else path, query, (splitOnce '#' tail).map Prod.snd)

def plainRead (authority : Authority) : Option PlainUrl :=
  if isPort authority.port then
    (plainHost authority.host).map fun host =>
      { host := host
        port := portNumber authority.port
        path := (plainTail authority.tail).1
        query := (plainTail authority.tail).2.1
        fragment := (plainTail authority.tail).2.2
        username := (plainUserinfo authority.userinfo).1
        password := (plainUserinfo authority.userinfo).2 }
  else none

def plainParse (text : Str) : Option PlainUrl :=
  if "http://".toList <+: text then plainRead (authorityOf (text.drop 7)) else none

def plainUrl : UrlCrate PlainUrl Str where
  parse := plainParse
  parseHost := plainHost
  scheme := fun _ => "http".toList
  host := fun u => some u.host
  portOrKnownDefault := fun u => some u.port
  path := PlainUrl.path
  query := PlainUrl.query
  fragment := PlainUrl.fragment
  username := PlainUrl.username
  password := PlainUrl.password
  setUsername := fun u username => some { u with username := encodeUserinfo username }
  setPassword := fun u password => some { u with
    password := (password.filter fun text => !text.isEmpty).map encodeUserinfo }

variable {text : Str} {authority : Authority} {u : PlainUrl}

theorem plainHost_chars (h : (plainHost text).isSome = true) : ∀ c ∈ text, isNameChar c = true := by
  unfold plainHost at h
  split at h
  · rename_i htext
    rw [Bool.and_eq_true, List.all_eq_true] at htext
    exact htext.2
  · cases h

theorem plainRead_reads (h : plainRead authority = some u) : Reads plainUrl authority u := by
  unfold plainRead at h
  split at h
  · obtain ⟨host, hhost, rfl⟩ := Option.map_eq_some_iff.mp h
    refine ⟨rfl, hhost.symm, by rw [show plainUrl.parseHost = plainHost from rfl, hhost]; rfl, rfl,
      fun htail => ?_, fun huserinfo => ?_⟩
    · simp only [plainUrl, htail]
      exact ⟨rfl, rfl, rfl⟩
    · simp only [plainUrl, huserinfo]
      exact ⟨rfl, rfl⟩
  · cases h

theorem plainUrl_lawful : Lawful plainUrl where
  parse := fun rest u _ h => by
    have hprefix : "http://".toList <+: "http://".toList ++ rest := List.prefix_append _ _
    have hread : plainParse ("http://".toList ++ rest) = plainRead (authorityOf rest) :=
      if_pos hprefix
    exact plainRead_reads (hread.symm.trans h)
  host_chars := fun text h c hc => not_isDelimiter rfl (plainHost_chars h c hc)
  host_brackets := fun text h hmem => absurd (plainHost_chars h '[' hmem) (by decide)
  setUsername := fun u username _ _ => ⟨_, rfl, ⟨rfl, rfl, rfl, rfl, rfl, rfl⟩, rfl, rfl⟩
  setPassword := fun u password _ _ => by
    refine ⟨_, rfl, ⟨rfl, rfl, rfl, rfl, rfl, rfl⟩, rfl, ?_⟩
    cases password <;> rfl

end MojangApi.Mojang
