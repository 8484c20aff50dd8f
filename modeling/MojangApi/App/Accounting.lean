import MojangApi.App.Moves
import MojangApi.Mojang.Accounting

/-! # The counters agree with what happened

Each counter is the number of things it stands for, found in the handlers, the
callers and loads of both caches, and the calls of the batch tasks. As long as
those numbers fit into 64 bits the counters inherit their relations.
-/

namespace MojangApi.App
open MojangApi Library Mojang

variable {U : Type}

/-- What a skin load has added to the errors. -/
def failedLoad (load : SingleFlight.Load Uuid (Option SkinProperty) UpstreamError) : ℕ :=
  match load.state with
  | .finished result _ => failures result
  | _ => 0

def handlerTotal (s : State) : Counter → ℕ
  | .uuidRequests => s.uuidHandlers.length
  | .skinRequests => s.skinHandlers.length
  | _ => 0

def skinTotal (skins : SkinCache) : Counter → ℕ
  | .skinCacheHits => skins.reads
  | .skinCacheMisses => skins.loads.length
  | .mojangRequests => skins.loads.length
  | .mojangErrors => (skins.loads.map failedLoad).sum
  | _ => 0

def State.total (s : State) (c : Counter) : ℕ :=
  handlerTotal s c + skinTotal s.skins c + s.lookup.total c

/-- The counters follow the totals, and every cache call is that of one handler. -/
structure Counted (s : State) : Prop where
  follows : s.metrics.Follows s.total
  uuidCalls : s.uuidHandlers.filterMap id = List.range s.lookup.cache.callers.length
  skinCalls : s.skinHandlers.filterMap id = List.range s.skins.callers.length

section Preservation
variable {expiry : Cache.OptionalValueExpiry} {config : Batch.BatchConfig}
  {client : MojangHttpClient U} {s t : State}

theorem counted_init : Counted (system expiry config client).init where
  follows := Metrics.follows_default.congr fun c => by cases c <;> rfl
  uuidCalls := rfl
  skinCalls := rfl

theorem callers_length {κ ν ε : Type} {cache cache' : SingleFlight.State κ ν ε}
    (h : cache'.callers.map SingleFlight.Caller.key = cache.callers.map SingleFlight.Caller.key) :
    cache'.callers.length = cache.callers.length := by
  simpa using congrArg List.length h

/-- An internal step of the lookups is not a call. -/
theorem callers_of_internal {lookup lookup' : Lookup.State} {e : Lookup.Event Exchange}
    (hinternal : isInternal e = true)
    (h : (Lookup.system expiry config client.service).step lookup e = some lookup') :
    lookup'.cache.callers.length = lookup.cache.callers.length := by
  cases Lookup.step_moves h with
  | lookup => cases hinternal
  | enter hcache => exact callers_length (SingleFlight.enter_keys hcache)
  | load hcache => exact callers_length (SingleFlight.enter_keys hcache)
  | sendError _ _ hcache => exact callers_length (SingleFlight.finish_keys hcache)
  | receive _ _ hcache => exact callers_length (SingleFlight.finish_keys hcache)
  | wake hcache => exact callers_length (SingleFlight.wake_keys hcache)
  | drop hcache => exact callers_length (SingleFlight.drop_keys hcache)
  | abandon hcache => exact callers_length (SingleFlight.drop_keys hcache)
  | _ => rfl

/-- A handler counts its request before it does anything else. -/
theorem follows_handler (c : Counter) (h : s.metrics.Follows s.total)
    (hhandlers : ∀ d, handlerTotal t d = handlerTotal s d + if c = d then 1 else 0)
    (hskins : ∀ d, skinTotal t.skins d = skinTotal s.skins d)
    (hlookup : ∀ d, t.lookup.total d = s.lookup.total d) :
    (s.metrics.add c 1).Follows t.total := by
  apply (h.add c 1).congr
  intro d
  rw [State.total, State.total, hhandlers, hskins, hlookup]
  omega

theorem skinTotal_call (skins : SkinCache) (uuid : Uuid) (c : Counter) :
    skinTotal (skins.call uuid) c = skinTotal skins c := by
  cases c with
  | skinCacheHits => exact SingleFlight.call_reads uuid
  | _ => rfl

/-- The skin lookups' share, for a step that may have read a value. -/
theorem follows_countSkinHit {skins : SkinCache} {r : ℕ} (h : s.metrics.Follows s.total)
    (hreads : skins.reads = s.skins.reads + if skins.servedFromCache r then 1 else 0)
    (hloads : skins.loads = s.skins.loads) :
    (countSkinHit skins r s.metrics).Follows fun c =>
      handlerTotal s c + skinTotal skins c + s.lookup.total c := by
  apply (h.addIf (skins.servedFromCache r) .skinCacheHits).congr
  intro c
  cases c <;> simp [State.total, skinTotal, hloads, hreads, Nat.add_assoc, Nat.add_comm,
    Nat.add_left_comm]

/-- A new load counts a miss and a request. -/
theorem follows_loadSkin (hclient : client.Reliable) {skins : SkinCache} {r : ℕ} {uuid : Uuid}
    (h : s.metrics.Follows s.total) (hreads : skins.reads = s.skins.reads)
    (hloads : skins.loads = s.skins.loads ++ [⟨uuid, r, .running⟩]) :
    ((client.lookupSkinStart uuid).run.run s.metrics.incrementSkinCacheMisses).2.Follows fun c =>
      handlerTotal s c + skinTotal skins c + s.lookup.total c := by
  have hmiss := h.add .skinCacheMisses 1
  have hsent := ((MojangHttpClient.sends_lookupSkinStart hclient uuid).sends _).2 _ hmiss
  apply hsent.congr
  intro c
  cases c <;> simp [State.total, skinTotal, hloads, hreads, failedLoad, Nat.add_assoc,
    Nat.add_comm, Nat.add_left_comm]

/-- A load that ends counts its error, if it has one. -/
theorem follows_finishSkin (hclient : client.Reliable) {skins : SkinCache} {i : ℕ} {uuid : Uuid}
    {exchange : Exchange} (h : s.metrics.Follows s.total)
    (hskins : s.skins.finish i (MojangHttpClient.afterStart (client.lookupSkinStart uuid)
      (client.lookupSkinFinish exchange) s.metrics).2 = some skins) :
    (MojangHttpClient.afterStart (client.lookupSkinStart uuid)
      (client.lookupSkinFinish exchange) s.metrics).1.Follows fun c =>
        handlerTotal s c + skinTotal skins c + s.lookup.total c := by
  have hfollows := MojangHttpClient.afterStart_follows
    (MojangHttpClient.sends_lookupSkinStart hclient uuid).sends
    (MojangHttpClient.accounts_lookupSkinFinish client exchange).tallies h
  generalize MojangHttpClient.afterStart (client.lookupSkinStart uuid)
    (client.lookupSkinFinish exchange) s.metrics = outcome at hskins hfollows ⊢
  have hreads := SingleFlight.finish_reads hskins
  obtain ⟨k, q, hl, hloads⟩ := SingleFlight.finish_loads hskins
  have hlength : skins.loads.length = s.skins.loads.length :=
    (congrArg List.length hloads).trans List.length_set
  have herrors : (skins.loads.map failedLoad).sum =
      (s.skins.loads.map failedLoad).sum + failures outcome.2 := by
    have hsum := sum_set failedLoad hl ⟨k, q, .finished outcome.2 s.skins.now⟩
    rw [← hloads] at hsum
    exact hsum
  apply hfollows.congr
  intro c
  cases c <;> simp [State.total, skinTotal, hlength, hreads, herrors, Nat.add_assoc,
    Nat.add_comm, Nat.add_left_comm]

/-- A dropped load has not failed. -/
theorem skinTotal_drop {skins : SkinCache} {r : ℕ} (h : s.skins.drop r = some skins)
    (hc : SingleFlight.Coherent expiry.ttlFor s.skins) (c : Counter) :
    skinTotal skins c = skinTotal s.skins c := by
  have hreads := SingleFlight.drop_reads h
  obtain ⟨caller, hr, ⟨-, rfl⟩ | ⟨i, hp, rfl⟩⟩ := SingleFlight.drop_cases h
  · cases c <;> simp [skinTotal, hreads]
  · have hok := hc.callers r caller hr
    simp only [SingleFlight.CallerOk, hp] at hok
    have herrors : ((s.skins.loads.set i ⟨caller.key, r, .abandoned⟩).map failedLoad).sum =
        (s.skins.loads.map failedLoad).sum := sum_set failedLoad hok.2.2 _
    cases c with
    | skinCacheHits => exact hreads
    | skinCacheMisses => exact List.length_set
    | mojangRequests => exact List.length_set
    | mojangErrors => exact herrors
    | _ => rfl

theorem calls_rejected {calls : List (Option ℕ)} {n : ℕ} (h : calls.filterMap id = List.range n) :
    (calls ++ [none]).filterMap id = List.range n := by
  simpa using h

theorem calls_called {calls : List (Option ℕ)} {n : ℕ} (h : calls.filterMap id = List.range n) :
    (calls ++ [some n]).filterMap id = List.range (n + 1) := by
  rw [List.filterMap_append, h, List.range_succ]
  rfl

theorem Counted.moves (h : Counted s) (hclient : client.Reliable)
    (hc : SingleFlight.Coherent expiry.ttlFor s.skins) (hm : Moves expiry config client s t) :
    Counted t := by
  cases hm with
  | rejectName =>
    refine ⟨?_, calls_rejected h.uuidCalls, h.skinCalls⟩
    refine follows_handler .uuidRequests h.follows (fun d => ?_) (fun _ => rfl) fun _ => rfl
    cases d <;> simp [handlerTotal]
  | @callName name lookup hlookup =>
    obtain rfl := Lookup.lookup_eq_some hlookup
    refine ⟨?_, (calls_called h.uuidCalls).trans ?_, h.skinCalls⟩
    · refine follows_handler .uuidRequests h.follows (fun d => ?_) (fun _ => rfl)
        fun d => Lookup.total_call _ _ d
      cases d <;> simp [handlerTotal]
    · exact congrArg List.range (SingleFlight.call_length s.lookup.cache _).symm
  | rejectUuid =>
    refine ⟨?_, h.uuidCalls, calls_rejected h.skinCalls⟩
    refine follows_handler .skinRequests h.follows (fun d => ?_) (fun _ => rfl) fun _ => rfl
    cases d <;> simp [handlerTotal]
  | callUuid uuid =>
    refine ⟨?_, h.uuidCalls, (calls_called h.skinCalls).trans ?_⟩
    · refine follows_handler .skinRequests h.follows (fun d => ?_) (skinTotal_call _ uuid) fun _ => rfl
      cases d <;> simp [handlerTotal]
    · exact congrArg List.range (SingleFlight.call_length s.skins uuid).symm
  | names hinternal hlookup =>
    have hmoves := Lookup.step_moves hlookup
    refine ⟨?_, h.uuidCalls.trans (congrArg List.range ?_), h.skinCalls⟩
    · refine Lookup.follows_moves (MojangHttpClient.accounts hclient) h.follows ?_ hmoves
      rintro metrics rfl
      cases hinternal
    · exact (callers_of_internal hinternal hlookup).symm
  | enterSkin hskins hloads =>
    refine ⟨follows_countSkinHit h.follows (SingleFlight.enter_reads hskins) hloads,
      h.uuidCalls, h.skinCalls.trans (congrArg List.range ?_)⟩
    exact (callers_length (SingleFlight.enter_keys hskins)).symm
  | loadSkin hskins hloads hserved =>
    have hreads := SingleFlight.enter_reads hskins
    rw [hserved] at hreads
    refine ⟨follows_loadSkin hclient h.follows hreads hloads, h.uuidCalls,
      h.skinCalls.trans (congrArg List.range ?_)⟩
    exact (callers_length (SingleFlight.enter_keys hskins)).symm
  | finishSkin exchange _ hskins =>
    refine ⟨follows_finishSkin hclient h.follows hskins, h.uuidCalls,
      h.skinCalls.trans (congrArg List.range ?_)⟩
    exact (callers_length (SingleFlight.finish_keys hskins)).symm
  | wakeSkin hskins =>
    refine ⟨follows_countSkinHit h.follows (SingleFlight.wake_reads hskins)
      (SingleFlight.wake_loads hskins), h.uuidCalls, h.skinCalls.trans (congrArg List.range ?_)⟩
    exact (callers_length (SingleFlight.wake_keys hskins)).symm
  | dropSkin hskins =>
    refine ⟨?_, h.uuidCalls, h.skinCalls.trans (congrArg List.range ?_)⟩
    · apply h.follows.congr
      intro c
      exact congrArg (fun n => handlerTotal s c + n + s.lookup.total c) (skinTotal_drop hskins hc c)
    · exact (callers_length (SingleFlight.drop_keys hskins)).symm
  | evictSkin => exact ⟨h.follows, h.uuidCalls, h.skinCalls⟩
  | elapse => exact ⟨h.follows, h.uuidCalls, h.skinCalls⟩

theorem reachable_coherent (h : (system expiry config client).Reachable s) :
    SingleFlight.Coherent expiry.ttlFor s.skins :=
  SingleFlight.reachable_coherent (skins_simulation.reachable h)

theorem reachable_counted (hclient : client.Reliable)
    (h : (system expiry config client).Reachable s) : Counted s :=
  h.invariant counted_init fun _ _ _ hr hu he =>
    hu.moves hclient (reachable_coherent hr) (step_moves he)

/-- A call of a handler that was answered with a value made a cache call that returned one. -/
theorem respond_ok {κ ν α : Type} {cache : SingleFlight.State κ ν UpstreamError}
    {rejected : AppError} {response : ν → α} {call : Option ℕ} {a : α}
    (h : respond cache rejected response call = some (.ok a)) :
    ∃ (r : ℕ) (c : SingleFlight.Caller κ ν UpstreamError) (value : ν)
      (origin : SingleFlight.Origin), call = some r ∧ cache.callers[r]? = some c ∧
        c.phase = .returned (.ok value) origin := by
  cases call with
  | none => cases h
  | some r =>
    simp only [respond] at h
    split at h
    · rename_i value origin hphase
      obtain ⟨c, hr, hp⟩ := Option.map_eq_some_iff.mp hphase
      exact ⟨r, c, value, origin, rfl, hr, hp⟩
    · cases h
    · cases h

end Preservation

/-- No counter has wrapped: the numbers of handler calls and of upstream requests fit. -/
structure Fits (s : State) : Prop where
  uuidRequests : s.uuidHandlers.length < 2 ^ 64
  skinRequests : s.skinHandlers.length < 2 ^ 64
  mojangRequests : s.lookup.processor.calls.length + s.skins.loads.length < 2 ^ 64

/-- What a caller has added to the hits and misses of its cache. -/
def Spent {κ ν : Type} (cache : SingleFlight.State κ ν UpstreamError) (calls : List (Option ℕ))
    (k hits misses : ℕ) : Prop :=
  ∃ (r : ℕ) (c : SingleFlight.Caller κ ν UpstreamError), calls[k]? = some (some r) ∧
    cache.callers[r]? = some c ∧ c.reads = hits ∧ c.loads = misses

section Totals
variable {expiry : Cache.OptionalValueExpiry} {config : Batch.BatchConfig}
  {client : MojangHttpClient U} {s : State}

theorem callers_le {calls : List (Option ℕ)} {n : ℕ} (h : calls.filterMap id = List.range n) :
    n ≤ calls.length := by
  have hle := List.length_filterMap_le id calls
  rwa [h, List.length_range] at hle

theorem failedLoads_le (skins : SkinCache) :
    (skins.loads.map failedLoad).sum ≤ skins.loads.length := by
  rw [← Nat.one_mul skins.loads.length]
  apply sum_le_mul_length
  intro load _
  unfold failedLoad
  split
  · exact failures_le _
  · exact Nat.zero_le _

/-- A number the handlers and the username cache have no part in. -/
theorem total_of_uncached {c : Counter} (hhandlers : handlerTotal s c = 0)
    (hcache : Lookup.cacheTotal s.lookup.cache c = 0) :
    s.total c = skinTotal s.skins c + s.lookup.processor.total c := by
  rw [State.total, Lookup.State.total, hhandlers, hcache, Nat.zero_add, Nat.zero_add]

/-- Handler calls and upstream requests bound all totals, and each upstream request is that of a
handler call. -/
theorem total_bounds (hcounted : Counted s) (h : (system expiry config client).Reachable s) :
    (∀ c : Counter, c.countsBytes = false →
      s.total c ≤ s.uuidHandlers.length ∨ s.total c ≤ s.skinHandlers.length ∨
        s.total c ≤ s.lookup.processor.calls.length + s.skins.loads.length) ∧
    s.lookup.processor.calls.length + s.skins.loads.length ≤
      s.uuidHandlers.length + s.skinHandlers.length := by
  have hlookup := lookup_simulation.reachable h
  have hcallers := callers_le hcounted.uuidCalls
  have hskinCallers := callers_le hcounted.skinCalls
  have hspent := (Lookup.reachable_coherent hlookup).spent_le
  have hskinSpent := (reachable_coherent h).spent_le
  obtain ⟨hlow, -, hloads⟩ := Lookup.usernames_bounds hlookup
  have herrors := Lookup.errors_le hlookup
  have hskinErrors := failedLoads_le s.skins
  refine ⟨fun c hc => ?_, by omega⟩
  cases c with
  | bytesSentToMojang => cases hc
  | bytesReceivedFromMojang => cases hc
  | _ =>
    simp only [State.total, Lookup.State.total, handlerTotal, skinTotal, Lookup.cacheTotal,
      Batch.State.total]
    omega

/-- As long as no counter has wrapped, each shows its total. -/
theorem counter_total (hcounted : Counted s) (h : (system expiry config client).Reachable s)
    (hfits : Fits s) (c : Counter) (hc : c.countsBytes = false) :
    s.metrics.counter c = s.total c := by
  have hbounds := (total_bounds hcounted h).1 c hc
  obtain ⟨hfit, hskinFit, hmojangFit⟩ := hfits
  rw [hcounted.follows c hc, Nat.mod_eq_of_lt (by omega)]

end Totals

/-- What the counters promise, given the batch size. -/
structure Agrees (size : ℕ) (s : State) : Prop where
  uuidSpent : ∀ k response, s.uuidResponse k = some (.ok response) →
    Spent s.lookup.cache s.uuidHandlers k 1 0 ∨ Spent s.lookup.cache s.uuidHandlers k 0 1
  skinSpent : ∀ k response, s.skinResponse k = some (.ok response) →
    Spent s.skins s.skinHandlers k 1 0 ∨ Spent s.skins s.skinHandlers k 0 1
  uuidCalls : s.uuidHandlers.filterMap id = List.range s.lookup.cache.callers.length
  skinCalls : s.skinHandlers.filterMap id = List.range s.skins.callers.length
  uuidHits : s.metrics.uuidCacheHits =
    (s.lookup.cache.callers.map SingleFlight.Caller.reads).sum
  uuidMisses : s.metrics.uuidCacheMisses =
    (s.lookup.cache.callers.map SingleFlight.Caller.loads).sum
  skinHits : s.metrics.skinCacheHits = (s.skins.callers.map SingleFlight.Caller.reads).sum
  skinMisses : s.metrics.skinCacheMisses = (s.skins.callers.map SingleFlight.Caller.loads).sum
  uuidRequests : s.metrics.uuidCacheHits + s.metrics.uuidCacheMisses ≤ s.metrics.uuidRequests
  skinRequests : s.metrics.skinCacheHits + s.metrics.skinCacheMisses ≤ s.metrics.skinRequests
  batches : s.metrics.batchesProcessed = s.lookup.processor.calls.length
  usernames : s.metrics.usernamesBatched = (s.lookup.processor.calls.map List.length).sum
  batches_le : s.metrics.batchesProcessed ≤ s.metrics.usernamesBatched
  usernames_le : s.metrics.usernamesBatched ≤ s.metrics.uuidCacheMisses
  usernames_le_size : s.metrics.usernamesBatched ≤ size * s.metrics.batchesProcessed
  mojangRequests : s.metrics.mojangRequests =
    s.metrics.batchesProcessed + s.metrics.skinCacheMisses
  mojangErrors : s.metrics.mojangErrors ≤ s.metrics.mojangRequests

theorem spent_of_response {κ ν α : Type} {ttl : ν → ℕ}
    {cache : SingleFlight.State κ ν UpstreamError} {rejected : AppError} {response : ν → α}
    {calls : List (Option ℕ)} {k : ℕ} {a : α} (hc : SingleFlight.Coherent ttl cache)
    (h : (calls[k]?).bind (respond cache rejected response) = some (.ok a)) :
    Spent cache calls k 1 0 ∨ Spent cache calls k 0 1 := by
  obtain ⟨call, hcall, h⟩ := Option.bind_eq_some_iff.mp h
  obtain ⟨r, c, value, origin, rfl, hr, hp⟩ := respond_ok h
  have hspent := hc.spent_of_returned hr hp
  rcases Nat.eq_zero_or_pos c.reads with hreads | hreads
  · exact .inr ⟨r, c, hcall, hr, hreads, by omega⟩
  · exact .inl ⟨r, c, hcall, hr, by omega, by omega⟩

/-- In every reachable state of the application in which no counter has wrapped, the
counters agree with each other and with what happened. -/
theorem metrics_agree (expiry : Cache.OptionalValueExpiry) (config : Batch.BatchConfig)
    (client : MojangHttpClient U) (hclient : client.Reliable) (s : State)
    (h : (system expiry config client).Reachable s) (hfits : Fits s) : Agrees config.size s := by
  have hcounted := reachable_counted hclient h
  have hlookup := lookup_simulation.reachable h
  have hnames := Lookup.reachable_coherent hlookup
  have hskins := reachable_coherent h
  have hcallers := callers_le hcounted.uuidCalls
  have hskinCallers := callers_le hcounted.skinCalls
  have hspent := hnames.spent_le
  have hskinSpent := hskins.spent_le
  obtain ⟨hlow, hhigh, hloads⟩ := Lookup.usernames_bounds hlookup
  have herrors := Lookup.errors_le hlookup
  have hskinErrors := failedLoads_le s.skins
  have htotal := counter_total hcounted h hfits
  have hrequests : s.metrics.uuidRequests = s.uuidHandlers.length := htotal .uuidRequests rfl
  have hskinRequests : s.metrics.skinRequests = s.skinHandlers.length := htotal .skinRequests rfl
  have hhits : s.metrics.uuidCacheHits = s.lookup.cache.reads :=
    (htotal .uuidCacheHits rfl).trans (Nat.zero_add _)
  have hmisses : s.metrics.uuidCacheMisses = s.lookup.cache.loads.length :=
    (htotal .uuidCacheMisses rfl).trans (Nat.zero_add _)
  have hskinHits : s.metrics.skinCacheHits = s.skins.reads :=
    (htotal .skinCacheHits rfl).trans (Nat.zero_add _)
  have hskinMisses : s.metrics.skinCacheMisses = s.skins.loads.length :=
    (htotal .skinCacheMisses rfl).trans (Nat.zero_add _)
  have hbatches : s.metrics.batchesProcessed = s.lookup.processor.calls.length :=
    (htotal .batchesProcessed rfl).trans ((total_of_uncached rfl rfl).trans (Nat.zero_add _))
  have husernames : s.metrics.usernamesBatched = (s.lookup.processor.calls.map List.length).sum :=
    (htotal .usernamesBatched rfl).trans ((total_of_uncached rfl rfl).trans (Nat.zero_add _))
  have hmojang : s.metrics.mojangRequests =
      s.skins.loads.length + s.lookup.processor.calls.length :=
    (htotal .mojangRequests rfl).trans (total_of_uncached rfl rfl)
  have hfailed : s.metrics.mojangErrors = (s.skins.loads.map failedLoad).sum +
      (s.lookup.processor.answered.map fun answer => failures answer.2).sum :=
    (htotal .mojangErrors rfl).trans (total_of_uncached rfl rfl)
  exact {
    uuidSpent := fun _ _ hresponse => spent_of_response hnames hresponse
    skinSpent := fun _ _ hresponse => spent_of_response hskins hresponse
    uuidCalls := hcounted.uuidCalls
    skinCalls := hcounted.skinCalls
    uuidHits := hhits
    uuidMisses := hmisses.trans hnames.started.symm
    skinHits := hskinHits
    skinMisses := hskinMisses.trans hskins.started.symm
    uuidRequests := by omega
    skinRequests := by omega
    batches := hbatches
    usernames := husernames
    batches_le := by omega
    usernames_le := by omega
    usernames_le_size := by rw [husernames, hbatches]; exact hhigh
    mojangRequests := by omega
    mojangErrors := by omega }

/-- A name that is loaded, rejected and read again, and a skin request that times out. -/
def mixedRequests : List Event :=
  [.lookupUuid "Steve".toList] ++
    [.enter 0, .reserve 0, .push 0, .process .firstTick, .process .recvBranch,
      .process .tickBranch, .process .acquire, .process (.pollTask 0),
      .process (.completeTask 0 (.responded 200 none [[0x5B, 0x5D]] none)), .receive 0].map
        Event.names ++
    [.lookupUuid "steve!".toList, .lookupUuid "STEVE".toList, .names (.enter 1),
      .lookupSkin "b1ae07784817436c96a3a72c67cda060".toList, .enterSkin 0, .finishSkin 0 (.failed true)]

theorem metrics_agree_mixed : ∃ s,
    (system .default Batch.smallConfig productionClient).run mixedRequests = some s ∧
    s.metrics.uuidRequests = 3 ∧ s.metrics.uuidCacheHits = 1 ∧ s.metrics.uuidCacheMisses = 1 ∧
    s.metrics.mojangRequests = 2 ∧ s.metrics.mojangErrors = 1 ∧ Agrees 2 s := by
  have hrun : ((system .default Batch.smallConfig productionClient).run mixedRequests).map
      (fun s => [s.metrics.uuidRequests, s.metrics.uuidCacheHits, s.metrics.uuidCacheMisses,
        s.metrics.mojangRequests, s.metrics.mojangErrors, s.uuidHandlers.length,
        s.skinHandlers.length, s.lookup.processor.calls.length + s.skins.loads.length]) =
      some [3, 1, 1, 2, 1, 3, 1, 2] := by decide +kernel
  obtain ⟨s, hs, hvalues⟩ := Option.map_eq_some_iff.mp hrun
  simp only [List.cons.injEq, and_true] at hvalues
  obtain ⟨hrequests, hhits, hmisses, hmojang, herrors, huuid, hskin, hcalls⟩ := hvalues
  have hfits : Fits s := ⟨by omega, by omega, by omega⟩
  exact ⟨s, hs, hrequests, hhits, hmisses, hmojang, herrors, metrics_agree .default
    Batch.smallConfig productionClient productionClient_reliable s (Machine.reachable_of_run hs) hfits⟩

end MojangApi.App
