import MojangApi.Metrics
import Mathlib.Data.List.Nodup

/-! # One batch task

`process_batch` awaits once, in `lookup_names`, so it is the stretch before the
call and the stretch after it. A service is what it does to the counters in
these stretches and how it turns what happened upstream into its result.
-/

namespace MojangApi.Batch
open MojangApi

/-- A queued lookup; its response sender is known by the number of its channel. -/
structure PendingLookup where
  name : Str
  response : ℕ
  deriving DecidableEq, Repr

abbrev Profiles := List (Str × Uuid)
abbrev LookupResult := Except UpstreamError (Option Uuid)

structure MojangService (ρ : Type*) where
  begin : List Str → Metrics → Metrics
  finish : List Str → ρ → Metrics → Metrics × Except UpstreamError Profiles

/-- The lookups whose requester is still there. -/
def openLookups (isClosed : ℕ → Bool) (batch : List PendingLookup) : List PendingLookup :=
  batch.filter fun lookup => !isClosed lookup.response

def names (batch : List PendingLookup) : List Str := batch.map PendingLookup.name
def responses (batch : List PendingLookup) : List ℕ := batch.map PendingLookup.response

@[simp] theorem responses_nil : responses [] = [] := rfl

@[simp] theorem responses_append (l l' : List PendingLookup) :
    responses (l ++ l') = responses l ++ responses l' := List.map_append

/-- The profiles under their lowercased names. -/
def profileMap (profiles : Profiles) : HashMap Str Uuid :=
  HashMap.collect (profiles.map fun profile => (asciiLowercase profile.1, profile.2))

def rejectResponses (responses : List ℕ) (error : UpstreamError) : List (ℕ × LookupResult) :=
  responses.map fun response => (response, .error error)

def rejectBatch (batch : List PendingLookup) (error : UpstreamError) : List (ℕ × LookupResult) :=
  rejectResponses (responses batch) error

/-- What is sent on which response channel once the call is over. -/
def sendResponses (names : List Str) (responses : List ℕ) :
    Except UpstreamError Profiles → List (ℕ × LookupResult)
  | .error error => rejectResponses responses error
  | .ok profiles =>
    let profiles := profileMap profiles
    (names.zip responses).map fun (name, response) => (response, .ok (profiles name))

variable {ρ : Type*} (service : MojangService ρ)

/-- The stretch before the call. -/
def startBatch (kept : List PendingLookup) (metrics : Metrics) : Metrics :=
  service.begin (names kept) (metrics.recordBatch (names kept).length)

/-- The stretch after the call. -/
def finishBatch (kept : List PendingLookup) (outcome : ρ) (metrics : Metrics) :
    Metrics × List (ℕ × LookupResult) :=
  let (metrics, result) := service.finish (names kept) outcome metrics
  (metrics, sendResponses (names kept) (responses kept) result)

structure Processed where
  metrics : Metrics
  call : Option (List Str)
  sent : List (ℕ × LookupResult)

/-- A batch task from start to end, when upstream answers with `outcome` of the names. -/
def processBatch (isClosed : ℕ → Bool) (batch : List PendingLookup)
    (outcome : List Str → ρ) (metrics : Metrics) : Processed :=
  let batch := openLookups isClosed batch
  if batch.isEmpty then ⟨metrics, none, []⟩
  else
    let metrics := startBatch service batch metrics
    let (metrics, sent) := finishBatch service batch (outcome (names batch)) metrics
    ⟨metrics, some (names batch), sent⟩

/-- The UUID of the last profile with a name, ignoring ASCII case. -/
def lastProfile (profiles : Profiles) (name : Str) : Option Uuid :=
  (profiles.reverse.find? fun profile => asciiLowercase profile.1 = name).map Prod.snd

/-- What a requester of `name` is told. -/
def reply (result : Except UpstreamError Profiles) (name : Str) : LookupResult :=
  result.map fun profiles => lastProfile profiles name

/-- The results sent on one response channel. -/
def sentOn (sent : List (ℕ × LookupResult)) (response : ℕ) : List LookupResult :=
  (sent.filter fun message => message.1 = response).map Prod.snd

section Routing
variable {kept batch : List PendingLookup} {profiles : Profiles} {name : Str}

theorem profileMap_apply (profiles : Profiles) (name : Str) :
    profileMap profiles name = lastProfile profiles name := by
  rw [profileMap, HashMap.collect_apply, lastProfile, ← List.map_reverse, List.find?_map,
    Option.map_map]
  rfl

/-- The positional zip puts every answer back beside its own response channel. -/
theorem sendResponses_eq (result : Except UpstreamError Profiles) :
    sendResponses (names kept) (responses kept) result =
      kept.map fun lookup => (lookup.response, reply result lookup.name) := by
  cases result with
  | error error => simp [sendResponses, rejectResponses, responses, reply, Except.map]
  | ok profiles =>
    simp [sendResponses, names, responses, reply, Except.map, profileMap_apply,
      List.zip_map', List.map_map]

theorem finishBatch_sent (outcome : ρ) (metrics : Metrics) :
    (finishBatch service kept outcome metrics).2 = kept.map fun lookup =>
      (lookup.response, reply (service.finish (names kept) outcome metrics).2 lookup.name) :=
  sendResponses_eq _

theorem sentOn_map_self (f : Str → LookupResult) (h : (responses kept).Nodup)
    {lookup : PendingLookup} (hl : lookup ∈ kept) :
    sentOn (kept.map fun lookup => (lookup.response, f lookup.name)) lookup.response =
      [f lookup.name] := by
  induction kept with
  | nil => simp at hl
  | cons head kept ih =>
    simp only [responses, List.map_cons, List.nodup_cons] at h
    have hrest : ∀ other ∈ kept, other.response ≠ head.response := by
      intro other hother heq
      exact h.1 (heq ▸ List.mem_map_of_mem hother)
    rcases List.mem_cons.mp hl with rfl | hl
    · have hnone : kept.filter (fun other => other.response = lookup.response) = [] :=
        List.filter_eq_nil_iff.mpr fun other hother => by simpa using hrest other hother
      simp [sentOn, List.filter_map, Function.comp_def, hnone]
    · have hne := (hrest lookup hl).symm
      rw [← ih h.2 hl]
      simp [sentOn, hne]

theorem sentOn_map_of_not_mem (f : Str → LookupResult) {response : ℕ}
    (h : response ∉ responses kept) :
    sentOn (kept.map fun lookup => (lookup.response, f lookup.name)) response = [] := by
  rw [sentOn, List.map_eq_nil_iff, List.filter_eq_nil_iff]
  intro message hmem
  obtain ⟨lookup, hl, rfl⟩ := List.mem_map.mp hmem
  have hne : lookup.response ≠ response := fun heq => h (heq ▸ List.mem_map_of_mem hl)
  simpa using hne

theorem lastProfile_eq_some {uuid : Uuid} (h : lastProfile profiles name = some uuid) :
    ∃ cased, (cased, uuid) ∈ profiles ∧ asciiLowercase cased = name := by
  obtain ⟨⟨cased, u⟩, hfind, rfl⟩ := Option.map_eq_some_iff.mp h
  refine ⟨cased, List.mem_reverse.mp (List.mem_of_find?_eq_some hfind), ?_⟩
  simpa using List.find?_some hfind

theorem lastProfile_eq_none : lastProfile profiles name = none ↔
    ∀ profile ∈ profiles, asciiLowercase profile.1 ≠ name := by
  simp [lastProfile]

/-- No two profiles have the same name ignoring ASCII case. -/
def DistinctNames (profiles : Profiles) : Prop :=
  (profiles.map fun profile => asciiLowercase profile.1).Nodup

theorem DistinctNames.uuid_unique (h : DistinctNames profiles) {p q : Str × Uuid}
    (hp : p ∈ profiles) (hq : q ∈ profiles) (hn : asciiLowercase p.1 = asciiLowercase q.1) :
    p = q := List.inj_on_of_nodup_map h hp hq hn

/-- With distinct names the answer is the one UUID listed for the name. -/
theorem lastProfile_of_mem (h : DistinctNames profiles) {cased : Str} {uuid : Uuid}
    (hmem : (cased, uuid) ∈ profiles) (hn : asciiLowercase cased = name) :
    lastProfile profiles name = some uuid := by
  cases hlast : lastProfile profiles name with
  | none => exact absurd hn (lastProfile_eq_none.mp hlast _ hmem)
  | some other =>
    obtain ⟨cased', hmem', hn'⟩ := lastProfile_eq_some hlast
    have hpair := h.uuid_unique hmem hmem' (hn.trans hn'.symm)
    rw [(Prod.mk.inj hpair).2]

theorem lastProfile_congr {profiles' : Profiles} (h' : DistinctNames profiles') (hsame : ∀ uuid,
      (∃ cased, (cased, uuid) ∈ profiles ∧ asciiLowercase cased = name) ↔
        ∃ cased, (cased, uuid) ∈ profiles' ∧ asciiLowercase cased = name) :
    lastProfile profiles name = lastProfile profiles' name := by
  cases hlast : lastProfile profiles name with
  | some uuid =>
    obtain ⟨cased, hmem, hn⟩ := (hsame uuid).mp (lastProfile_eq_some hlast)
    exact (lastProfile_of_mem h' hmem hn).symm
  | none =>
    refine (lastProfile_eq_none.mpr fun profile hmem hn => ?_).symm
    obtain ⟨cased, hmem', hn'⟩ := (hsame profile.2).mpr ⟨profile.1, hmem, hn⟩
    exact lastProfile_eq_none.mp hlast _ hmem' hn'

end Routing

section Whole
variable {service} {isClosed : ℕ → Bool} {batch : List PendingLookup} {outcome : List Str → ρ}
  {metrics : Metrics}

/-- The result of the one call a batch makes. -/
def callResult (service : MojangService ρ) (isClosed : ℕ → Bool) (batch : List PendingLookup)
    (outcome : List Str → ρ) (metrics : Metrics) : Except UpstreamError Profiles :=
  let kept := openLookups isClosed batch
  (service.finish (names kept) (outcome (names kept)) (startBatch service kept metrics)).2

theorem mem_openLookups {lookup : PendingLookup} : lookup ∈ openLookups isClosed batch ↔
    lookup ∈ batch ∧ isClosed lookup.response = false := by
  simp [openLookups]

theorem processBatch_sent : (processBatch service isClosed batch outcome metrics).sent =
    (openLookups isClosed batch).map fun lookup =>
      (lookup.response, reply (callResult service isClosed batch outcome metrics) lookup.name) := by
  unfold processBatch
  by_cases hempty : openLookups isClosed batch = []
  · simp [hempty]
  · simp [hempty, callResult, finishBatch_sent]

theorem responses_open_nodup (h : (responses batch).Nodup) :
    (responses (openLookups isClosed batch)).Nodup :=
  h.sublist (List.filter_sublist.map _)

end Whole

/-- Each kept lookup is sent exactly one response, its own; the others are sent none. With
distinct profile names the response depends on nothing but the profiles of that name. -/
theorem processBatch_routes (service : MojangService ρ) (isClosed : ℕ → Bool)
    (batch : List PendingLookup) (outcome : List Str → ρ) (metrics : Metrics)
    (hown : (responses batch).Nodup) :
    (∀ lookup ∈ batch, isClosed lookup.response = false →
      sentOn (processBatch service isClosed batch outcome metrics).sent lookup.response =
        [match callResult service isClosed batch outcome metrics with
          | .ok profiles => .ok (lastProfile profiles lookup.name)
          | .error error => .error error]) ∧
    (∀ response, (∀ lookup ∈ batch, isClosed lookup.response = false →
        lookup.response ≠ response) →
      sentOn (processBatch service isClosed batch outcome metrics).sent response = []) ∧
    ∀ (isClosed' : ℕ → Bool) (batch' : List PendingLookup) (outcome' : List Str → ρ)
      (metrics' : Metrics) (profiles profiles' : Profiles) (lookup : PendingLookup),
      (responses batch').Nodup →
      callResult service isClosed batch outcome metrics = .ok profiles →
      callResult service isClosed' batch' outcome' metrics' = .ok profiles' →
      DistinctNames profiles' →
      lookup ∈ openLookups isClosed batch → lookup ∈ openLookups isClosed' batch' →
      (∀ uuid, (∃ cased, (cased, uuid) ∈ profiles ∧ asciiLowercase cased = lookup.name) ↔
        ∃ cased, (cased, uuid) ∈ profiles' ∧ asciiLowercase cased = lookup.name) →
      sentOn (processBatch service isClosed batch outcome metrics).sent lookup.response =
        sentOn (processBatch service isClosed' batch' outcome' metrics').sent lookup.response := by
  refine ⟨?_, ?_, ?_⟩
  · intro lookup hmem hopen
    rw [processBatch_sent,
      sentOn_map_self _ (responses_open_nodup hown) (mem_openLookups.mpr ⟨hmem, hopen⟩)]
    cases callResult service isClosed batch outcome metrics <;> rfl
  · intro response hother
    rw [processBatch_sent]
    apply sentOn_map_of_not_mem _
    intro hmem
    obtain ⟨lookup, hl, hr⟩ := List.mem_map.mp hmem
    exact hother lookup (mem_openLookups.mp hl).1 (mem_openLookups.mp hl).2 hr
  · intro isClosed' batch' outcome' metrics' profiles profiles' lookup hown' hok hok' hd' hmem hmem'
      hsame
    rw [processBatch_sent, processBatch_sent, hok, hok',
      sentOn_map_self _ (responses_open_nodup hown) hmem,
      sentOn_map_self _ (responses_open_nodup hown') hmem']
    exact congrArg (fun answer => [Except.ok answer]) (lastProfile_congr hd' hsame)

/-- A service that always answers with the same profiles. -/
def listing (profiles : Profiles) : MojangService Unit where
  begin _ metrics := metrics
  finish _ _ metrics := (metrics, .ok profiles)

/-- The answer for one name beside a requester who has left. -/
theorem processBatch_routes_cased :
    sentOn (processBatch (listing [("STEVE".toList, 7), ("Alex".toList, 8)])
      (fun response => response == 1) [⟨"alex".toList, 1⟩, ⟨"steve".toList, 2⟩] (fun _ => ())
      {}).sent 2 = [.ok (some 7)] := by
  have hroutes := processBatch_routes (listing [("STEVE".toList, 7), ("Alex".toList, 8)])
    (fun response => response == 1) [⟨"alex".toList, 1⟩, ⟨"steve".toList, 2⟩] (fun _ => ()) {}
    (by decide)
  exact hroutes.1 ⟨"steve".toList, 2⟩ (by simp) rfl

end MojangApi.Batch
