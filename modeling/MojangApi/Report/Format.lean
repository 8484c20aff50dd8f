import MojangApi.Library.Grouping
import MojangApi.Metrics

/-! # The numbers of a report

Counts are grouped by thousands, a duration is written unit by unit, a period in
minutes. Next to each way of writing is the one to read it back. Floating-point
numbers and how they are printed are a parameter.
-/

namespace MojangApi.Report
open MojangApi Library

/-- The operations on `f64` that reports use, and its printing with so many decimals. -/
structure Floats where
  F : Type
  ofNat : ℕ → F
  ofDuration : ℕ → F
  div : F → F → F
  mul : F → F → F
  fixed : ℕ → F → Str
  fixed_oneLine : ∀ decimals x, '\n' ∉ fixed decimals x

def u64SaturatingAdd (a b : ℕ) : ℕ := min (a + b) (2 ^ 64 - 1)

def formatBytes (floats : Floats) (bytes : ℕ) : Str :=
  let kib := floats.ofNat 1024
  let mib := floats.mul (floats.ofNat 1024) (floats.ofNat 1024)
  if bytes ≤ 1023 then Nat.toDigits 10 bytes ++ " B".toList
  else if bytes ≤ 1048575 then
    floats.fixed 2 (floats.div (floats.ofNat bytes) kib) ++ " KB".toList
  else floats.fixed 2 (floats.div (floats.ofNat bytes) mib) ++ " MB".toList

/-- A part of a duration, left out if there is none of it. -/
def durationPart (n : ℕ) (unit : Char) : List Str :=
  if 0 < n then [Nat.toDigits 10 n ++ [unit]] else []

def formatDuration (duration : ℕ) : Str :=
  let seconds := Duration.asSecs duration
  let days := seconds / 86400
  let hours := seconds % 86400 / 3600
  let minutes := seconds % 3600 / 60
  let seconds := seconds % 60
  [' '].intercalate (durationPart days 'd' ++ durationPart hours 'h' ++
    durationPart minutes 'm' ++ [Nat.toDigits 10 seconds ++ ['s']])

/-- `div_ceil(60)` of the seconds. -/
def reportMinutes (duration : ℕ) : ℕ := (Duration.asSecs duration + 59) / 60

def formatReportPeriod (duration : ℕ) : Str :=
  Nat.toDigits 10 (reportMinutes duration) ++ "min".toList

/-- A comma goes before each digit with a multiple of three digits from it to the end. -/
def formatNumber (number : ℕ) : Str := separate ',' 3 (Nat.toDigits 10 number)

def averageBatchSize (floats : Floats) (snapshot : MetricsSnapshot) : Str :=
  if snapshot.batchesProcessed = 0 then "N/A".toList
  else floats.fixed 1 (floats.div (floats.ofNat snapshot.usernamesBatched)
    (floats.ofNat snapshot.batchesProcessed))

section Read

/-- A number, with or without commas. -/
def readNumber (word : Str) : Option ℕ :=
  let digits := (word.splitOn ',').flatten
  if digits.isEmpty || !digits.all Char.isDigit then none
  else some (Nat.ofDigitChars 10 digits 0)

/-- The words of a text that are numbers. -/
def readNumbers (text : Str) : List ℕ := (text.splitOn ' ').filterMap readNumber

def unitSeconds : Char → Option ℕ
  | 'd' => some 86400
  | 'h' => some 3600
  | 'm' => some 60
  | 's' => some 1
  | _ => none

def readPart (word : Str) : Option ℕ := do
  let seconds ← word.getLast?.bind unitSeconds
  let n ← readNumber word.dropLast
  some (n * seconds)

/-- The seconds of a duration. -/
def readDuration (text : Str) : Option ℕ := ((text.splitOn ' ').mapM readPart).map List.sum

/-- The minutes of a period. -/
def readPeriod (text : Str) : Option ℕ := readNumber (text.takeWhile Char.isDigit)

end Read

section Numbers

theorem isDigit_toDigits {n : ℕ} {c : Char} (h : c ∈ Nat.toDigits 10 n) : c.isDigit = true :=
  Nat.isDigit_of_mem_toDigits (by decide) (by decide) h

theorem not_mem_toDigits {n : ℕ} {c : Char} (hc : c.isDigit = false) :
    c ∉ Nat.toDigits 10 n := by
  intro h
  rw [isDigit_toDigits h] at hc
  cases hc

theorem readNumber_eq {word digits : Str} {n : ℕ} (hdigits : digits = Nat.toDigits 10 n)
    (hword : (word.splitOn ',').flatten = digits) : readNumber word = some n := by
  have hall : (Nat.toDigits 10 n).all Char.isDigit = true :=
    List.all_eq_true.mpr fun c hc => isDigit_toDigits hc
  have hne : (Nat.toDigits 10 n).isEmpty = false :=
    List.isEmpty_eq_false_iff.mpr Nat.toDigits_ne_nil
  simp only [readNumber, hword, hdigits, hall, hne, Nat.ofDigitChars_ten_toDigits]
  rfl

@[simp] theorem readNumber_digits (n : ℕ) : readNumber (Nat.toDigits 10 n) = some n := by
  apply readNumber_eq rfl
  rw [List.splitOn_eq_singleton (not_mem_toDigits (by decide)), List.flatten_singleton]

/-- Numbers are read back as they were before the commas were put in. -/
@[simp] theorem readNumber_format (n : ℕ) : readNumber (formatNumber n) = some n := by
  apply readNumber_eq rfl
  exact flatten_splitOn_separate (by decide) Nat.toDigits_ne_nil (not_mem_toDigits (by decide))

theorem not_mem_formatNumber {n : ℕ} {c : Char} (hcomma : c ≠ ',') (hc : c.isDigit = false) :
    c ∉ formatNumber n := by
  intro h
  rcases mem_separate h with h | h
  · exact hcomma h
  · exact not_mem_toDigits hc h

end Numbers

section Durations

theorem not_mem_durationPart {n : ℕ} {unit c : Char} (hunit : c ≠ unit) (hc : c.isDigit = false)
    {part : Str} (h : part ∈ durationPart n unit) : c ∉ part := by
  rw [durationPart] at h
  split at h
  · obtain rfl := List.mem_singleton.mp h
    simp [hunit, not_mem_toDigits hc]
  · cases h

end Durations

section OneLine

theorem formatNumber_oneLine (n : ℕ) : '\n' ∉ formatNumber n :=
  not_mem_formatNumber (by decide) (by decide)

theorem formatDuration_oneLine (duration : ℕ) : '\n' ∉ formatDuration duration := by
  apply not_mem_intercalate (by decide)
  intro part hpart
  simp only [List.mem_append, List.mem_singleton] at hpart
  rcases hpart with ((hpart | hpart) | hpart) | rfl
  · exact not_mem_durationPart (by decide) (by decide) hpart
  · exact not_mem_durationPart (by decide) (by decide) hpart
  · exact not_mem_durationPart (by decide) (by decide) hpart
  · rw [List.mem_append, not_or]
    exact ⟨not_mem_toDigits (by decide), by decide⟩

theorem formatBytes_oneLine (floats : Floats) (bytes : ℕ) : '\n' ∉ formatBytes floats bytes := by
  have hdigits : '\n' ∉ Nat.toDigits 10 bytes := not_mem_toDigits (by decide)
  simp only [formatBytes]
  split
  · simp [hdigits]
  · split <;> simp [floats.fixed_oneLine]

theorem averageBatchSize_oneLine (floats : Floats) (snapshot : MetricsSnapshot) :
    '\n' ∉ averageBatchSize floats snapshot := by
  rw [averageBatchSize]
  split
  · decide
  · exact floats.fixed_oneLine _ _

end OneLine
end MojangApi.Report
