import MojangApi.Library.FirstOccurrences
import MojangApi.Mojang.ProxyUrl
import Mathlib.Data.List.DropRight

/-! # `load_proxy_list`

The lines of a file, trimmed. Blank ones are skipped, the others parsed; a proxy
is kept the first time it comes, and a line that is none is warned about.
-/

namespace MojangApi.Mojang
open MojangApi Library

section Text

/-- The characters with the Unicode property `White_Space`. -/
def isWhitespace (c : Char) : Bool :=
  (0x09 ≤ c.toNat && c.toNat ≤ 0x0D) || (0x2000 ≤ c.toNat && c.toNat ≤ 0x200A) ||
    [0x20, 0x85, 0xA0, 0x1680, 0x2028, 0x2029, 0x202F, 0x205F, 0x3000].contains c.toNat

def trim (s : Str) : Str := (s.dropWhile isWhitespace).rdropWhile isWhitespace

/-- The pieces of a string, each but the last with the separator at its end. -/
def splitInclusive (sep : Char) : Str → List Str
  | [] => []
  | c :: s =>
    if c = sep then [c] :: splitInclusive sep s
    else
      match splitInclusive sep s with
      | [] => [[c]]
      | piece :: pieces => (c :: piece) :: pieces

def stripSuffix (s : Str) (c : Char) : Option Str :=
  if s.getLast? = some c then some s.dropLast else none

/-- A line without the `\n` or `\r\n` at its end. -/
def stripLineEnd (line : Str) : Str :=
  match stripSuffix line '\n' with
  | none => line
  | some line => (stripSuffix line '\r').getD line

def lines (content : Str) : List Str := (splitInclusive '\n' content).map stripLineEnd

end Text

inductive IoError where
  | notFound
  | other (text : Str)
  deriving DecidableEq, Repr

inductive ClientBuildError where
  | noBatchEndpoints
  | build
  | readProxyList (path : Str) (source : IoError)
  deriving DecidableEq, Repr

def usizeSaturatingAdd (a b : ℕ) : ℕ := min (a + b) (2 ^ 64 - 1)

/-- The loop so far: the proxies, the set of them, and the warnings with their line numbers. -/
structure Loading (U : Type) where
  proxies : List U := []
  seen : Finset U := ∅
  warnings : List (ℕ × ProxyParseError) := []

section Load
variable {U H : Type} [DecidableEq U] (url : UrlCrate U H)

/-- `HashSet::insert`: the set afterwards, and whether the element was new. -/
def insertNew (seen : Finset U) (proxy : U) : Finset U × Bool :=
  (insert proxy seen, decide (proxy ∉ seen))

def Loading.line (loading : Loading U) (entry : Str × ℕ) : Loading U :=
  let line := trim entry.1
  if line.isEmpty then loading
  else
    match parseProxyUrl url line with
    | .ok proxy =>
      match insertNew loading.seen proxy with
      | (seen, true) => { loading with seen := seen, proxies := loading.proxies ++ [proxy] }
      | (seen, false) => { loading with seen := seen }
    | .error error =>
      let warning := (usizeSaturatingAdd entry.2 1, error)
      { loading with warnings := loading.warnings ++ [warning] }

def loadLines (content : Str) : Loading U :=
  (lines content).zipIdx.foldl (Loading.line url) {}

/-- A file that does not exist lists no proxies. -/
def loadProxyList (readToString : Str → Except IoError Str) (path : Str) :
    Except ClientBuildError (List U) :=
  match readToString path with
  | .ok content => .ok (loadLines url content).proxies
  | .error .notFound => .ok []
  | .error error => .error (.readProxyList path error)

end Load
end MojangApi.Mojang
