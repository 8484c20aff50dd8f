import Mathlib.Logic.Function.Basic
import Mathlib.Algebra.Ring.Nat

/-! # Values shared by the components

Strings are lists of Unicode scalar values. Instants and durations are natural
numbers of nanoseconds, so that the saturating differences of the source are the
truncated subtraction of the naturals.
-/

namespace MojangApi

abbrev Str := List Char

/-- The UTF-8 bytes of a string. -/
def Str.bytes (s : Str) : List UInt8 := s.flatMap String.utf8EncodeChar

/-- `make_ascii_lowercase`: only the letters `A` to `Z` change. -/
def asciiLowercase (s : Str) : Str := s.map Char.toLower

/-- Parsing an unsigned integer of so many bits: decimal digits, after an optional plus sign. -/
def parseUnsigned (bits : ℕ) (s : Str) : Option ℕ :=
  let digits := match s with
    | '+' :: digits => digits
    | digits => digits
  if digits.isEmpty || !digits.all Char.isDigit then none
  else
    let number := Nat.ofDigitChars 10 digits 0
    if number < 2 ^ bits then some number else none

abbrev Uuid := BitVec 128

namespace Duration

def fromSecs (n : ℕ) : ℕ := n * 1000000000
def fromMins (n : ℕ) : ℕ := fromSecs (n * 60)

/-- Whole seconds, rounded down. -/
def asSecs (d : ℕ) : ℕ := d / 1000000000

end Duration

def saturatingDurationSince (later earlier : ℕ) : ℕ := later - earlier

inductive UpstreamError where
  | timeout
  | httpStatus (status : ℕ)
  | transport
  | invalidResponse
  deriving DecidableEq, Repr

structure SkinProperty where
  value : Str
  signature : Str
  deriving DecidableEq, Repr

/-- A hash map, as the partial function it denotes. -/
abbrev HashMap (α β : Type*) := α → Option β

namespace HashMap
variable {α β : Type*} [DecidableEq α]

def empty : HashMap α β := fun _ => none

def insert (m : HashMap α β) (k : α) (v : β) : HashMap α β := Function.update m k (some v)

/-- Keep the records that satisfy a predicate. -/
def retain (m : HashMap α β) (p : β → Bool) : HashMap α β := fun k => (m k).filter p

/-- Collecting pairs inserts them in order, so the last one of a key stays. -/
def collect (l : List (α × β)) : HashMap α β := l.foldl (fun m p => m.insert p.1 p.2) empty

@[simp] theorem insert_self (m : HashMap α β) (k : α) (v : β) : m.insert k v k = some v := by
  simp [insert]

theorem insert_of_ne (m : HashMap α β) {k k' : α} (v : β) (h : k' ≠ k) :
    m.insert k v k' = m k' := by
  simp [insert, h]

theorem foldl_insert (l : List (α × β)) (m : HashMap α β) (k : α) :
    l.foldl (fun m p => m.insert p.1 p.2) m k =
      (l.reverse.find? fun p => p.1 = k).elim (m k) fun p => some p.2 := by
  induction l generalizing m with
  | nil => rfl
  | cons p l ih =>
    rw [List.foldl_cons, ih, List.reverse_cons, List.find?_append]
    cases l.reverse.find? fun p => p.1 = k with
    | some q => rfl
    | none =>
      by_cases hp : p.1 = k
      · subst k
        simp
      · simp [hp, insert_of_ne m p.2 (Ne.symm hp)]

/-- A collected map gives a key the value of its last pair. -/
theorem collect_apply (l : List (α × β)) (k : α) :
    collect l k = (l.reverse.find? fun p => p.1 = k).map Prod.snd := by
  rw [collect, foldl_insert]
  cases l.reverse.find? fun p => p.1 = k <;> rfl

end HashMap
end MojangApi
