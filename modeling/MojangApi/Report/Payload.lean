import MojangApi.Mojang.ProxyFile
import MojangApi.Report.Format

/-! # `build_report`

The payload of a status report: fields whose values are labelled lines. What is
written into the lines can be read back out of the payload.
-/

namespace MojangApi.Report
open MojangApi Library Mojang

/-- What a report shows besides the counters: files about the process, and the time. -/
structure Surroundings where
  readToString : String → Option Str
  timestamp : Str

structure Field where
  name : Str
  value : Str
  inline : Bool
  deriving DecidableEq

structure Embed where
  title : String
  color : ℕ
  fields : List Field
  timestamp : Str
  footer : String
  deriving DecidableEq

section Process

def parseU64 (s : Str) : Option ℕ := parseUnsigned 64 s

def u64CheckedMul (a b : ℕ) : Option ℕ := if a * b < 2 ^ 64 then some (a * b) else none

def stripPrefix (pattern s : Str) : Option Str :=
  if pattern.isPrefixOf s then some (s.drop pattern.length) else none

/-- The words between whitespace. -/
def splitWhitespace (s : Str) : List Str :=
  (s.splitOnP isWhitespace).filter fun word => !word.isEmpty

def processRssBytes (readToString : String → Option Str) : Option ℕ := do
  let status ← readToString "/proc/self/status"
  let rest ← (lines status).findSome? (stripPrefix "VmRSS:".toList)
  let word ← (splitWhitespace rest).head?
  let kibibytes ← parseU64 word
  u64CheckedMul kibibytes 1024

def loadAverage (readToString : String → Option Str) : Option Str := do
  let loadAverage ← readToString "/proc/loadavg"
  let values := (splitWhitespace loadAverage).take 3
  if values.length = 3 then some (" / ".toList.intercalate values) else none

end Process

/-- The line `**{label}:** {value}`. -/
def writeLine (line : String × Str) : Str :=
  "**".toList ++ line.1.toList ++ ":** ".toList ++ line.2

def writeLines (lines : List (String × Str)) : Str := ['\n'].intercalate (lines.map writeLine)

section Build
variable (floats : Floats) (surroundings : Surroundings) (snapshot : MetricsSnapshot)

def cacheHitRate (totalCacheHits totalCacheLookups : ℕ) : Str :=
  if totalCacheLookups = 0 then "N/A".toList
  else floats.fixed 1 (floats.mul (floats.div (floats.ofNat totalCacheHits)
    (floats.ofNat totalCacheLookups)) (floats.ofNat 100)) ++ ['%']

def requestsPerMinute (totalRequests reportPeriod : ℕ) : floats.F :=
  if reportPeriod = 0 then floats.ofNat 0
  else floats.mul (floats.div (floats.ofNat totalRequests) (floats.ofDuration reportPeriod))
    (floats.ofNat 60)

/-- Green without errors, orange for a few of them, and red. -/
def color (mojangErrors : ℕ) : ℕ :=
  if mojangErrors = 0 then 0x2ecc71 else if mojangErrors ≤ 10 then 0xf39c12 else 0xe74c3c

/-- `{name} ({report_period})` -/
def periodName (name : String) (period : Str) : Str :=
  name.toList ++ " (".toList ++ period ++ [')']

/-- `{} hit / {} miss` -/
def hitsAndMisses (hits misses : ℕ) : Str :=
  formatNumber hits ++ " hit / ".toList ++ formatNumber misses ++ " miss".toList

def totalRequests : ℕ := u64SaturatingAdd snapshot.uuidRequests snapshot.skinRequests

def totalCacheHits : ℕ := u64SaturatingAdd snapshot.uuidCacheHits snapshot.skinCacheHits

def totalCacheMisses : ℕ := u64SaturatingAdd snapshot.uuidCacheMisses snapshot.skinCacheMisses

def totalCacheLookups : ℕ := u64SaturatingAdd (totalCacheHits snapshot) (totalCacheMisses snapshot)

def serverLines : List (String × Str) :=
  [("Uptime", formatDuration snapshot.uptime),
    ("RSS", ((processRssBytes surroundings.readToString).map (formatBytes floats)).getD
      "Unavailable".toList),
    ("Load Avg", (loadAverage surroundings.readToString).getD "Unavailable".toList)]

def requestLines : List (String × Str) :=
  [("Total", formatNumber (totalRequests snapshot)),
    ("UUID Lookups", formatNumber snapshot.uuidRequests),
    ("Skin Lookups", formatNumber snapshot.skinRequests),
    ("Req/min", floats.fixed 1
      (requestsPerMinute floats (totalRequests snapshot) snapshot.reportPeriod))]

def cacheLines : List (String × Str) :=
  [("Hits", formatNumber (totalCacheHits snapshot)),
    ("Misses", formatNumber (totalCacheMisses snapshot)),
    ("Hit Rate", cacheHitRate floats (totalCacheHits snapshot) (totalCacheLookups snapshot)),
    ("UUID", hitsAndMisses snapshot.uuidCacheHits snapshot.uuidCacheMisses),
    ("Skin", hitsAndMisses snapshot.skinCacheHits snapshot.skinCacheMisses)]

def batchLines : List (String × Str) :=
  [("Batches", formatNumber snapshot.batchesProcessed),
    ("Usernames", formatNumber snapshot.usernamesBatched),
    ("Avg Size", averageBatchSize floats snapshot)]

def backendLines : List (String × Str) :=
  [("Requests", formatNumber snapshot.mojangRequests),
    ("Errors", formatNumber snapshot.mojangErrors),
    ("Sent", formatBytes floats snapshot.bytesSentToMojang),
    ("Received", formatBytes floats snapshot.bytesReceivedFromMojang)]

def buildReport : Embed :=
  let reportPeriod := formatReportPeriod snapshot.reportPeriod
  { title := "Mojang API Proxy - Status Report"
    color := color snapshot.mojangErrors
    fields := [
      ⟨"Server".toList, writeLines (serverLines floats surroundings snapshot), false⟩,
      ⟨periodName "Requests" reportPeriod, writeLines (requestLines floats snapshot), true⟩,
      ⟨periodName "Cache" reportPeriod, writeLines (cacheLines floats snapshot), true⟩,
      ⟨periodName "Batching" reportPeriod, writeLines (batchLines floats snapshot), true⟩,
      ⟨periodName "Mojang Backend" reportPeriod, writeLines (backendLines floats snapshot), true⟩]
    timestamp := surroundings.timestamp
    footer := "SRMojangAPI v2.0.0" }

end Build

section Read

def readLine (line : Str) : Option (Str × Str) :=
  (splitOnce ':' (line.drop 2)).map fun (label, rest) => (label, rest.drop 3)

def readLines (text : Str) : List (Str × Str) := (text.splitOn '\n').filterMap readLine

/-- The value of the line with this label, in the field of that number. -/
def Embed.line (embed : Embed) (field : ℕ) (label : String) : Option Str := do
  let field ← embed.fields[field]?
  (readLines field.value).lookup label.toList

/-- Where a count is: the field, the label of the line, and which of its numbers. -/
def place : Counter → ℕ × String × ℕ
  | .uuidRequests => (1, "UUID Lookups", 0)
  | .skinRequests => (1, "Skin Lookups", 0)
  | .uuidCacheHits => (2, "UUID", 0)
  | .uuidCacheMisses => (2, "UUID", 1)
  | .skinCacheHits => (2, "Skin", 0)
  | .skinCacheMisses => (2, "Skin", 1)
  | .batchesProcessed => (3, "Batches", 0)
  | .usernamesBatched => (3, "Usernames", 0)
  | .mojangRequests => (4, "Requests", 0)
  | .mojangErrors => (4, "Errors", 0)
  | .bytesSentToMojang => (4, "Sent", 0)
  | .bytesReceivedFromMojang => (4, "Received", 0)

def Embed.counter (embed : Embed) (c : Counter) : Option ℕ := do
  let text ← embed.line (place c).1 (place c).2.1
  (readNumbers text)[(place c).2.2]?

/-- The seconds that the process has been up. -/
def Embed.uptime (embed : Embed) : Option ℕ := (embed.line 0 "Uptime").bind readDuration

/-- The minutes that the name of a field gives. -/
def Embed.minutes (embed : Embed) (field : ℕ) : Option ℕ := do
  let field ← embed.fields[field]?
  let (_, period) ← splitOnce '(' field.name
  readPeriod period

end Read

section Lines

/-- A line whose label can be told from its value, and which is one line. -/
structure OneLine (line : String × Str) : Prop where
  label : ':' ∉ line.1.toList
  name : '\n' ∉ line.1.toList
  value : '\n' ∉ line.2

theorem readLine_write {line : String × Str} (h : ':' ∉ line.1.toList) :
    readLine (writeLine line) = some (line.1.toList, line.2) := by
  have hsplit : splitOnce ':' (line.1.toList ++ ':' :: ("** ".toList ++ line.2)) =
      some (line.1.toList, "** ".toList ++ line.2) := splitOnce_append h
  have hwrite : (writeLine line).drop 2 = line.1.toList ++ ':' :: ("** ".toList ++ line.2) := by
    simp [writeLine]
  rw [readLine, hwrite, hsplit]
  rfl

/-- The lines of a value are read back. -/
theorem readLines_write {lines : List (String × Str)} (hne : lines ≠ [])
    (h : ∀ line ∈ lines, OneLine line) :
    readLines (writeLines lines) = lines.map fun line => (line.1.toList, line.2) := by
  rw [readLines, writeLines, List.splitOn_intercalate]
  · rw [List.filterMap_map, ← List.filterMap_eq_map]
    apply List.filterMap_congr
    intro line hline
    exact readLine_write (h line hline).label
  · intro text htext
    obtain ⟨line, hline, rfl⟩ := List.mem_map.mp htext
    simp [writeLine, (h line hline).name, (h line hline).value]
  · simpa using hne

end Lines

section Written
variable {floats : Floats} {surroundings : Surroundings} {snapshot : MetricsSnapshot}

theorem oneLine_of {label : String} {value : Str}
    (hlabel : (label.toList.all fun c => c ≠ ':' && c ≠ '\n') = true) (hvalue : '\n' ∉ value) :
    OneLine (label, value) := by
  rw [List.all_eq_true] at hlabel
  refine ⟨fun h => ?_, fun h => ?_, hvalue⟩
  · simpa using hlabel _ h
  · simpa using hlabel _ h

theorem loadAverage_oneLine : '\n' ∉
    (loadAverage surroundings.readToString).getD "Unavailable".toList := by
  cases h : loadAverage surroundings.readToString with
  | none => decide
  | some text =>
    obtain ⟨content, -, h⟩ := Option.bind_eq_some_iff.mp h
    dsimp only at h
    split at h
    · obtain rfl := Option.some.inj h
      apply not_mem_intercalate (by decide)
      intro word hword
      have hmem := (List.mem_filter.mp (List.mem_of_mem_take hword)).1
      exact not_mem_splitOnP (by decide) _ word hmem
    · cases h

theorem cacheHitRate_oneLine (hits lookups : ℕ) : '\n' ∉ cacheHitRate floats hits lookups := by
  rw [cacheHitRate]
  split
  · decide
  · simp [floats.fixed_oneLine]

theorem hitsAndMisses_oneLine (hits misses : ℕ) : '\n' ∉ hitsAndMisses hits misses := by
  simp [hitsAndMisses, formatNumber_oneLine]

/-- The lines of the five fields. -/
def fieldLines (floats : Floats) (surroundings : Surroundings) (snapshot : MetricsSnapshot) :
    List (List (String × Str)) :=
  [serverLines floats surroundings snapshot, requestLines floats snapshot,
    cacheLines floats snapshot, batchLines floats snapshot, backendLines floats snapshot]

theorem fields_value : (buildReport floats surroundings snapshot).fields.map Field.value =
    (fieldLines floats surroundings snapshot).map writeLines := rfl

theorem fieldLines_oneLine : ∀ lines ∈ fieldLines floats surroundings snapshot,
    lines ≠ [] ∧ ∀ line ∈ lines, OneLine line := by
  have hrss : '\n' ∉ ((processRssBytes surroundings.readToString).map (formatBytes floats)).getD
      "Unavailable".toList := by
    cases processRssBytes surroundings.readToString with
    | none => exact (by decide : '\n' ∉ "Unavailable".toList)
    | some bytes => exact formatBytes_oneLine floats bytes
  simp only [fieldLines, serverLines, requestLines, cacheLines, batchLines, backendLines,
    List.forall_mem_cons, List.not_mem_nil, false_implies, implies_true, and_true, ne_eq,
    reduceCtorEq, not_false_eq_true, true_and]
  refine ⟨⟨?_, ?_, ?_⟩, ⟨?_, ?_, ?_, ?_⟩, ⟨?_, ?_, ?_, ?_, ?_⟩, ⟨?_, ?_, ?_⟩, ?_, ?_, ?_, ?_⟩
  all_goals
    apply oneLine_of (by decide)
    first
      | exact formatNumber_oneLine _
      | exact hitsAndMisses_oneLine _ _
      | exact formatBytes_oneLine _ _
      | exact formatDuration_oneLine _
      | exact averageBatchSize_oneLine _ _
      | exact cacheHitRate_oneLine _ _
      | exact floats.fixed_oneLine _ _
      | exact loadAverage_oneLine
      | exact hrss

theorem lookup_toList (lines : List (String × Str)) (label : String) :
    (lines.map fun line => (line.1.toList, line.2)).lookup label.toList = lines.lookup label := by
  induction lines with
  | nil => rfl
  | cons line lines ih =>
    have hsame : (label.toList == line.1.toList) = (label == line.1) := by
      rw [Bool.eq_iff_iff]
      simp [String.toList_inj]
    rw [List.map_cons, List.lookup_cons, List.lookup_cons, hsame, ih]

theorem line_eq {field : ℕ} {lines : List (String × Str)}
    (h : (fieldLines floats surroundings snapshot)[field]? = some lines) (label : String) :
    (buildReport floats surroundings snapshot).line field label = lines.lookup label := by
  have hvalue : (buildReport floats surroundings snapshot).fields[field]?.map Field.value =
      some (writeLines lines) := by
    rw [← List.getElem?_map, fields_value, List.getElem?_map, h]
    rfl
  obtain ⟨written, hwritten, hvalue⟩ := Option.map_eq_some_iff.mp hvalue
  obtain ⟨hne, hlines⟩ := fieldLines_oneLine lines (List.mem_of_getElem? h)
  rw [← lookup_toList, ← readLines_write hne hlines, ← hvalue]
  simp [Embed.line, hwritten]

theorem readNumbers_format (n : ℕ) : readNumbers (formatNumber n) = [n] := by
  rw [readNumbers, List.splitOn_eq_singleton (not_mem_formatNumber (by decide) (by decide))]
  simp

theorem readNumbers_hitsAndMisses (hits misses : ℕ) :
    readNumbers (hitsAndMisses hits misses) = [hits, misses] := by
  have hwords : hitsAndMisses hits misses = [' '].intercalate
      [formatNumber hits, "hit".toList, ['/'], formatNumber misses, "miss".toList] := by
    simp [hitsAndMisses]
  have hspace : ∀ n, ' ' ∉ formatNumber n := fun n => not_mem_formatNumber (by decide) (by decide)
  rw [readNumbers, hwords, List.splitOn_intercalate _ _ (List.cons_ne_nil _ _)]
  · have hhit : readNumber "hit".toList = none := by decide
    have hslash : readNumber ['/'] = none := by decide
    have hmiss : readNumber "miss".toList = none := by decide
    simp only [List.filterMap_cons, readNumber_format, hhit, hslash, hmiss, List.filterMap_nil]
  · simp [hspace]

/-- The text in which a count is written. -/
def countText (snapshot : MetricsSnapshot) : Counter → Str
  | .uuidCacheHits | .uuidCacheMisses =>
    hitsAndMisses snapshot.uuidCacheHits snapshot.uuidCacheMisses
  | .skinCacheHits | .skinCacheMisses =>
    hitsAndMisses snapshot.skinCacheHits snapshot.skinCacheMisses
  | c => formatNumber (snapshot.counter c)

theorem line_place {c : Counter} (hc : c.countsBytes = false) :
    (buildReport floats surroundings snapshot).line (place c).1 (place c).2.1 =
      some (countText snapshot c) := by
  cases c
  all_goals try cases hc
  all_goals
    rw [line_eq rfl]
    simp [place, requestLines, cacheLines, batchLines, backendLines, List.lookup_cons, countText,
      MetricsSnapshot.counter]

/-- Every count is read off a report as it was, apart from those of bytes. -/
theorem counter_buildReport {c : Counter} (hc : c.countsBytes = false) :
    (buildReport floats surroundings snapshot).counter c = some (snapshot.counter c) := by
  rw [Embed.counter, line_place hc]
  change (readNumbers (countText snapshot c))[(place c).2.2]? = _
  cases c
  all_goals try cases hc
  all_goals simp only [countText, readNumbers_format, readNumbers_hitsAndMisses]
  all_goals rfl

end Written
end MojangApi.Report
