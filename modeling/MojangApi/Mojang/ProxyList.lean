import MojangApi.Mojang.PlainUrl
import MojangApi.Mojang.ProxyFile

/-! # The proxies of a file

The list that is loaded is that of the first occurrences of the URLs of its
lines. Lines that have no URL, or one that an earlier line has, may be added
anywhere.
-/

namespace MojangApi.Mojang
open MojangApi Library

section Spec
variable {U H : Type}

/-- The URLs of the trimmed lines that are not blank, in their order. -/
def lineUrls (url : UrlCrate U H) (texts : List Str) : List U :=
  ((texts.map trim).filter fun line => !line.isEmpty).filterMap fun line =>
    (parseProxyUrl url line).toOption

/-- The error of a line that is not blank, under its number. -/
def lineError (url : UrlCrate U H) (entry : Str × ℕ) : Option (ℕ × ProxyParseError) :=
  match trim entry.1, parseProxyUrl url (trim entry.1) with
  | _ :: _, .error error => some (usizeSaturatingAdd entry.2 1, error)
  | _, _ => none

/-- A line that adds nothing after these. -/
inductive Idle (url : UrlCrate U H) (before : List Str) (line : Str) : Prop
  | blank (h : trim line = [])
  | invalid (error : ProxyParseError) (h : parseProxyUrl url (trim line) = .error error)
  | repeated (proxy : U) (earlier : Str) (hmem : earlier ∈ before)
      (hearlier : parseProxyUrl url (trim earlier) = .ok proxy)
      (h : parseProxyUrl url (trim line) = .ok proxy)

/-- Lines, and the same with idle ones between them; some may have come before. -/
inductive Padded (url : UrlCrate U H) : List Str → List Str → List Str → Prop
  | done (before : List Str) : Padded url before [] []
  | keep {before texts padded : List Str} (line : Str)
      (h : Padded url (before ++ [line]) texts padded) :
      Padded url before (line :: texts) (line :: padded)
  | insert {before texts padded : List Str} (line : Str) (hidle : Idle url before line)
      (h : Padded url before texts padded) : Padded url before texts (line :: padded)

end Spec

section Lines
variable {U H : Type} {url : UrlCrate U H} {before texts padded rest : List Str} {line : Str}
  {proxy : U}

theorem lineUrls_append (texts rest : List Str) :
    lineUrls url (texts ++ rest) = lineUrls url texts ++ lineUrls url rest := by
  simp only [lineUrls, List.map_append, List.filter_append, List.filterMap_append]

/-- A blank line has no URL either way. -/
theorem lineUrls_cons (line : Str) (texts : List Str) :
    lineUrls url (line :: texts) =
      (parseProxyUrl url (trim line)).toOption.toList ++ lineUrls url texts := by
  rw [← List.singleton_append, lineUrls_append]
  congr 1
  cases hline : trim line with
  | nil =>
    rw [parseProxyUrl_one List.not_mem_nil]
    simp [lineUrls, hline, Except.toOption]
  | cons c text =>
    cases hparse : parseProxyUrl url (c :: text) <;>
      simp [lineUrls, hline, hparse, Except.toOption]

theorem mem_lineUrls : proxy ∈ lineUrls url texts ↔
    ∃ line ∈ texts, parseProxyUrl url (trim line) = .ok proxy := by
  induction texts with
  | nil => simp [lineUrls]
  | cons line texts ih =>
    rw [lineUrls_cons, List.mem_append, ih, List.exists_mem_cons_iff]
    cases parseProxyUrl url (trim line) with
    | error error => simp [Except.toOption]
    | ok parsed => simp [Except.toOption, eq_comm]

variable [DecidableEq U]

/-- One more line offers its URL, if it has one. -/
theorem Loading.line_offers (loading : Loading U) (entry : Str × ℕ) :
    ((loading.line url entry).proxies, (loading.line url entry).seen) =
      (lineUrls url [entry.1]).foldl FirstOccurrences.offer (loading.proxies, loading.seen) := by
  rw [lineUrls_cons]
  cases hline : trim entry.1 with
  | nil =>
    rw [parseProxyUrl_one List.not_mem_nil, Loading.line, hline]
    rfl
  | cons c text =>
    cases hparse : parseProxyUrl url (c :: text) with
    | error error =>
      simp only [Loading.line, hline, hparse]
      rfl
    | ok proxy =>
      simp only [Loading.line, hline, hparse, insertNew]
      by_cases hseen : proxy ∈ loading.seen
      · simp [hseen, lineUrls, Except.toOption, FirstOccurrences.offer]
      · simp [hseen, lineUrls, Except.toOption, FirstOccurrences.offer]

theorem Loading.line_warns (loading : Loading U) (entry : Str × ℕ) :
    (loading.line url entry).warnings = loading.warnings ++ (lineError url entry).toList := by
  rw [Loading.line, lineError]
  cases hline : trim entry.1 with
  | nil => exact (List.append_nil _).symm
  | cons c text =>
    cases hparse : parseProxyUrl url (c :: text) with
    | error error => simp
    | ok proxy => by_cases hseen : proxy ∈ loading.seen <;> simp [insertNew, hseen]

/-- The whole loop offers the URLs of the lines in turn, and warns about the others. -/
theorem Loading.lines_offer (texts : List Str) (start : ℕ) (loading : Loading U) :
    (((texts.zipIdx start).foldl (Loading.line url) loading).proxies,
        ((texts.zipIdx start).foldl (Loading.line url) loading).seen) =
      (lineUrls url texts).foldl FirstOccurrences.offer (loading.proxies, loading.seen) := by
  induction texts generalizing start loading with
  | nil => rfl
  | cons line texts ih =>
    rw [List.zipIdx_cons, List.foldl_cons, ih, Loading.line_offers, ← List.foldl_append,
      ← lineUrls_append]
    rfl

theorem Loading.lines_warn (entries : List (Str × ℕ)) (loading : Loading U) :
    (entries.foldl (Loading.line url) loading).warnings =
      loading.warnings ++ entries.filterMap (lineError url) := by
  induction entries generalizing loading with
  | nil => simp
  | cons entry entries ih =>
    rw [List.foldl_cons, ih, Loading.line_warns, List.append_assoc, List.filterMap_cons]
    cases lineError url entry <;> rfl

/-- The list and the set hold the same URLs, the list those of the first occurrences. -/
theorem loadLines_proxies (url : UrlCrate U H) (content : Str) :
    (loadLines url content).proxies = (lineUrls url (lines content)).eraseDups ∧
      (loadLines url content).seen = (lineUrls url (lines content)).toFinset := by
  have hload := @Loading.lines_offer U H url _ (lines content) 0 {}
  rw [FirstOccurrences.foldl_offer] at hload
  exact Prod.mk.inj hload

theorem loadLines_warnings (url : UrlCrate U H) (content : Str) :
    (loadLines url content).warnings = (lines content).zipIdx.filterMap (lineError url) :=
  (Loading.lines_warn _ _).trans (List.nil_append _)

theorem Idle.eraseDups (h : Idle url before line) (rest : List Str) :
    (lineUrls url (before ++ line :: rest)).eraseDups =
      (lineUrls url (before ++ rest)).eraseDups := by
  rw [lineUrls_append, lineUrls_cons, lineUrls_append]
  cases h with
  | blank h =>
    rw [h, parseProxyUrl_one List.not_mem_nil]
    rfl
  | invalid error h =>
    rw [h]
    rfl
  | repeated proxy earlier hmem hearlier h =>
    rw [h]
    exact FirstOccurrences.eraseDups_repeat (mem_lineUrls.mpr ⟨earlier, hmem, hearlier⟩) _

theorem Padded.eraseDups (h : Padded url before texts padded) :
    (lineUrls url (before ++ padded)).eraseDups = (lineUrls url (before ++ texts)).eraseDups := by
  induction h with
  | done before => rfl
  | keep line _ ih => simpa using ih
  | insert line hidle _ ih => rw [hidle.eraseDups, ih]

end Lines

section Insertion
variable {U H : Type} {url : UrlCrate U H} {before rest : List Str} {line head extra tail : Str}

theorem splitInclusive_ne_nil {sep : Char} {s : Str} (h : s ≠ []) : splitInclusive sep s ≠ [] := by
  obtain ⟨c, s, rfl⟩ := List.exists_cons_of_ne_nil h
  rw [splitInclusive]
  split
  · exact List.cons_ne_nil _ _
  · split <;> exact List.cons_ne_nil _ _

/-- The end of a line is the end of a piece. -/
theorem splitInclusive_append (sep : Char) (head tail : Str) :
    splitInclusive sep (head ++ sep :: tail) =
      splitInclusive sep (head ++ [sep]) ++ splitInclusive sep tail := by
  induction head with
  | nil => simp [splitInclusive]
  | cons c head ih =>
    rw [List.cons_append, List.cons_append, splitInclusive, splitInclusive, ih]
    by_cases hc : c = sep
    · rw [if_pos hc, if_pos hc]
      rfl
    · rw [if_neg hc, if_neg hc]
      obtain ⟨piece, pieces, hpieces⟩ := List.exists_cons_of_ne_nil
        (@splitInclusive_ne_nil sep (head ++ [sep]) (by simp))
      rw [hpieces]
      rfl

theorem splitInclusive_line {sep : Char} (h : sep ∉ line) :
    splitInclusive sep (line ++ [sep]) = [line ++ [sep]] := by
  induction line with
  | nil => simp [splitInclusive]
  | cons c line ih =>
    rw [List.mem_cons, not_or] at h
    rw [List.cons_append, splitInclusive, if_neg (Ne.symm h.1), ih h.2]

/-- Text may be cut between two lines. -/
theorem lines_append (hhead : head = [] ∨ ∃ text, head = text ++ ['\n']) :
    lines (head ++ tail) = lines head ++ lines tail := by
  rcases hhead with rfl | ⟨text, rfl⟩
  · rfl
  · rw [List.append_assoc, List.singleton_append, lines, splitInclusive_append, List.map_append]
    rfl

theorem trim_snoc {c : Char} (h : isWhitespace c = true) (s : Str) : trim (s ++ [c]) = trim s := by
  rw [trim, trim, List.dropWhile_append]
  split
  · rename_i hempty
    rw [List.isEmpty_iff.mp hempty, List.dropWhile_cons_of_pos h]
    rfl
  · exact List.rdropWhile_concat_pos _ _ _ h

/-- The characters at the end of a line are trimmed anyway. -/
theorem trim_stripLineEnd (line : Str) : trim (stripLineEnd (line ++ ['\n'])) = trim line := by
  have hstrip : stripLineEnd (line ++ ['\n']) = (stripSuffix line '\r').getD line := by
    simp [stripLineEnd, stripSuffix]
  rw [hstrip, stripSuffix]
  split
  · rename_i hlast
    obtain ⟨text, rfl⟩ := List.getLast?_eq_some_iff.mp hlast
    rw [Option.getD_some, List.dropLast_concat, trim_snoc (by decide)]
  · rfl

theorem Padded.refl (before texts : List Str) : Padded url before texts texts := by
  induction texts generalizing before with
  | nil => exact .done before
  | cons line texts ih => exact .keep line (ih _)

theorem Idle.padded (earlier before : List Str) (h : Idle url (earlier ++ before) line) :
    Padded url earlier (before ++ rest) (before ++ line :: rest) := by
  induction before generalizing earlier with
  | nil => exact .insert line (by simpa using h) (.refl _ _)
  | cons first before ih => exact .keep first (ih _ (by simpa using h))

theorem Idle.congr {line' : Str} (h : Idle url before line) (htrim : trim line' = trim line) :
    Idle url before line' := by
  cases h with
  | blank h => exact .blank (htrim.trans h)
  | invalid error h => exact .invalid error (by rwa [htrim])
  | repeated proxy earlier hmem hearlier h =>
    exact .repeated proxy earlier hmem hearlier (by rwa [htrim])

/-- A line of text between two others is a line of the file. -/
theorem padded_insert (hhead : head = [] ∨ ∃ text, head = text ++ ['\n']) (hextra : '\n' ∉ extra)
    (hidle : Idle url (lines head) extra) :
    Padded url [] (lines (head ++ tail)) (lines (head ++ (extra ++ '\n' :: tail))) := by
  have hline : lines (extra ++ '\n' :: tail) = stripLineEnd (extra ++ ['\n']) :: lines tail := by
    rw [lines, splitInclusive_append, splitInclusive_line hextra]
    rfl
  rw [lines_append hhead, lines_append hhead, hline]
  exact Idle.padded [] (lines head) (hidle.congr (trim_stripLineEnd extra))

end Insertion
section Load
variable {U H : Type} [DecidableEq U]

/-- What the loaded list is to the lines of the file. -/
structure ListOf (url : UrlCrate U H) (texts : List Str) (proxies : List U) : Prop where
  firsts : proxies = (lineUrls url texts).eraseDups
  nodup : proxies.Nodup
  order : proxies.Pairwise fun a b => (lineUrls url texts).idxOf a < (lineUrls url texts).idxOf b
  complete : ∀ line ∈ texts, ∀ proxy, trim line ≠ [] →
    parseProxyUrl url (trim line) = .ok proxy → proxy ∈ proxies
  sound : ∀ proxy ∈ proxies, ∃ line ∈ texts, trim line ≠ [] ∧
    parseProxyUrl url (trim line) = .ok proxy

theorem listOf_eraseDups (url : UrlCrate U H) (texts : List Str) :
    ListOf url texts (lineUrls url texts).eraseDups where
  firsts := rfl
  nodup := FirstOccurrences.nodup_eraseDups _
  order := FirstOccurrences.pairwise_eraseDups _
  complete line hline proxy _ hparse :=
    List.mem_eraseDups.mpr (mem_lineUrls.mpr ⟨line, hline, hparse⟩)
  sound proxy hproxy := by
    obtain ⟨line, hline, hparse⟩ := mem_lineUrls.mp (List.mem_eraseDups.mp hproxy)
    refine ⟨line, hline, fun hblank => ?_, hparse⟩
    rw [hblank, parseProxyUrl_one List.not_mem_nil] at hparse
    cases hparse

/-- A file that can be read is loaded as the first occurrences of its URLs, and idle lines may be
added to it anywhere, also as text before a line of it. -/
theorem loadProxyList_firsts (url : UrlCrate U H) (readToString : Str → Except IoError Str)
    (path content : Str) (hread : readToString path = .ok content) :
    ∃ proxies, loadProxyList url readToString path = .ok proxies ∧
      ListOf url (lines content) proxies ∧
      ∀ path' content', readToString path' = .ok content' →
        (Padded url [] (lines content) (lines content') ∨
          ∃ head tail extra, content = head ++ tail ∧
            (head = [] ∨ ∃ text, head = text ++ ['\n']) ∧ '\n' ∉ extra ∧
            Idle url (lines head) extra ∧ content' = head ++ (extra ++ '\n' :: tail)) →
        loadProxyList url readToString path' = .ok proxies := by
  refine ⟨(lineUrls url (lines content)).eraseDups, ?_, listOf_eraseDups url _,
    fun path' content' hread' hadded => ?_⟩
  · simp only [loadProxyList, hread, (loadLines_proxies url content).1]
  · have hpadded : Padded url [] (lines content) (lines content') := by
      rcases hadded with hpadded | ⟨head, tail, extra, rfl, hhead, hextra, hidle, rfl⟩
      · exact hpadded
      · exact padded_insert hhead hextra hidle
    simp only [loadProxyList, hread', (loadLines_proxies url content').1]
    exact congrArg Except.ok hpadded.eraseDups

/-- Two spellings of one proxy, the second indented, with a blank line between them and another
proxy between blanks after them. -/
def respelled : Str :=
  "proxy.example:3128".toList ++ '\n' :: '\t' :: '\n' ::
    "  PROXY.example:03128".toList ++ '\n' :: " other.example:80 ".toList

theorem loadProxyList_firsts_respelled : ListOf plainUrl (lines respelled)
    [⟨"proxy.example".toList, 3128, ['/'], none, none, [], none⟩,
      ⟨"other.example".toList, 80, ['/'], none, none, [], none⟩] := by
  obtain ⟨proxies, hload, hlist, -⟩ :=
    loadProxyList_firsts plainUrl (fun path => .ok path) respelled _ rfl
  have htwo : loadProxyList plainUrl (fun path => .ok path) respelled =
      .ok [⟨"proxy.example".toList, 3128, ['/'], none, none, [], none⟩,
        ⟨"other.example".toList, 80, ['/'], none, none, [], none⟩] := by decide +kernel
  obtain rfl := Except.ok.inj (hload.symm.trans htwo)
  exact hlist

end Load

end MojangApi.Mojang
