import MojangApi.App.Records

/-! # The answers of the handlers

A handler rejects its text, or answers with what an exchange meant that ended a call
with its name or a load of its skin. The one answer that comes from nowhere else is
the internal error of a lookup that met a shutdown or a panic.
-/

namespace MojangApi.App
open MojangApi Library Mojang

variable {U : Type} {expiry : Cache.OptionalValueExpiry} {config : Batch.BatchConfig}
  {client : MojangHttpClient U} {s : State} {es : List Event}

/-- What a handler answered, and what its cache call returned before. -/
theorem respond_cases {κ ν α : Type} {cache : SingleFlight.State κ ν UpstreamError}
    {rejected : AppError} {response : ν → α} {call : Option ℕ} {result : Except AppError α}
    (h : respond cache rejected response call = some result) :
    call = none ∧ result = .error rejected ∨
      ∃ (r : ℕ) (c : SingleFlight.Caller κ ν UpstreamError) (returned : Except UpstreamError ν)
        (origin : SingleFlight.Origin), call = some r ∧ cache.callers[r]? = some c ∧
          c.phase = .returned returned origin ∧
          result = (returned.map response).mapError AppError.fromUpstream := by
  cases call with
  | none => exact .inl ⟨rfl, (Option.some.inj h).symm⟩
  | some r =>
    simp only [respond] at h
    split at h
    · rename_i value origin hphase
      obtain ⟨c, hr, hp⟩ := Option.map_eq_some_iff.mp hphase
      exact .inr ⟨r, c, .ok value, origin, rfl, hr, hp, (Option.some.inj h).symm⟩
    · rename_i error origin hphase
      obtain ⟨c, hr, hp⟩ := Option.map_eq_some_iff.mp hphase
      exact .inr ⟨r, c, .error error, origin, rfl, hr, hp, (Option.some.inj h).symm⟩
    · cases h

/-- The answer to a name, given what upstream said of the names of a call. -/
def answerName (outcome : Except UpstreamError Batch.Profiles) (name : Str) :
    Except AppError UuidLookupResponse :=
  match outcome with
  | .ok profiles => .ok ⟨(Batch.lastProfile profiles (asciiLowercase name)).isSome,
      Batch.lastProfile profiles (asciiLowercase name)⟩
  | .error error => .error (.fromUpstream error)

def answerSkin (outcome : Except UpstreamError (Option SkinProperty)) :
    Except AppError SkinLookupResponse :=
  match outcome with
  | .ok property => .ok ⟨property.isSome, property⟩
  | .error error => .error (.fromUpstream error)

/-- A shutdown was signalled, or a batch task panicked. -/
def Disturbed (es : List Event) : Prop :=
  .names (.process .signalShutdown) ∈ es ∨ ∃ i, .names (.process (.panicTask i)) ∈ es

theorem lookupReturned (hclient : client.Reliable)
    (h : (system expiry config client).run es = some s) {r : ℕ}
    {c : SingleFlight.Caller Str (Option Uuid) UpstreamError} {name : Str}
    {returned : Except UpstreamError (Option Uuid)} {origin : SingleFlight.Origin}
    (hname : s.lookup.requests[r]? = some name) (hr : s.lookup.cache.callers[r]? = some c)
    (hp : c.phase = .returned returned origin) :
    (∃ names exchange, CallEnded expiry config client es names exchange ∧
      asciiLowercase name ∈ names ∧ returned = (namesOutcome client.libraries exchange).map
        fun profiles => Batch.lastProfile profiles (asciiLowercase name)) ∨
    returned = .error .transport ∧ Disturbed es := by
  have hlookup := lookup_simulation.reachable (Machine.reachable_of_run h)
  have hrecords := records_run hclient h
  cases returned with
  | ok value =>
    obtain ⟨name', hname', ⟨names, profiles, hanswered, hmem, hvalue⟩, -⟩ :=
      Lookup.returned_backed hlookup hr hp
    obtain rfl := Option.some.inj (hname.symm.trans hname')
    obtain ⟨exchange, hended, houtcome⟩ := hrecords.answered _ _ hanswered
    refine .inl ⟨names, exchange, hended, hmem, ?_⟩
    rw [← houtcome, hvalue]
    rfl
  | error error =>
    obtain ⟨name', hname', hblames⟩ := Lookup.returned_blamed hlookup hr hp
    obtain rfl := Option.some.inj (hname.symm.trans hname')
    rcases hblames with ⟨names, hanswered, hmem⟩ |
      ⟨rfl, ⟨hclosed, -⟩ | ⟨kept, hkept, -⟩ | ⟨haborted, -⟩⟩
    · obtain ⟨exchange, hended, houtcome⟩ := hrecords.answered _ _ hanswered
      refine .inl ⟨names, exchange, hended, hmem, ?_⟩
      rw [← houtcome]
      rfl
    · have hprocessor := Lookup.processor_simulation.reachable hlookup
      exact .inr ⟨rfl, .inl (hrecords.shutdown (Batch.reachable_closedOnSignal hprocessor hclosed))⟩
    · exact .inr ⟨rfl, .inr (hrecords.panicked (List.ne_nil_of_mem hkept))⟩
    · exact haborted.elim

/-- What a call of `lookup_uuid` answers, given the text it was called with. -/
theorem nameAnswered (hclient : client.Reliable) (h : (system expiry config client).run es = some s)
    {k : ℕ} {result : Except AppError UuidLookupResponse}
    (hresult : s.uuidResponse k = some result) {text : Str} (htext : (nameTexts es)[k]? = some text) :
    (isValidMinecraftUsername text = false ∧ result = .error .invalidName) ∨
      isValidMinecraftUsername text = true ∧
        ((∃ names exchange, CallEnded expiry config client es names exchange ∧
            asciiLowercase text ∈ names ∧
            result = answerName (namesOutcome client.libraries exchange) text) ∨
          result = .error .internal ∧ Disturbed es) := by
  obtain ⟨handler, hhandler, hrespond⟩ := Option.bind_eq_some_iff.mp hresult
  obtain ⟨text', htext', hhandles⟩ := (hears_run h).names.handler hhandler
  obtain rfl := Option.some.inj (htext.symm.trans htext')
  rcases respond_cases hrespond with ⟨rfl, rfl⟩ | ⟨r, c, returned, origin, rfl, hr, hp, rfl⟩
  · refine .inl ⟨?_, rfl⟩
    simpa [Handles, validName] using hhandles
  · obtain ⟨key, hkey, hname⟩ := hhandles
    obtain ⟨hvalid, rfl⟩ : isValidMinecraftUsername text = true ∧ text = key := by
      simpa [validName] using hkey
    refine .inr ⟨hvalid, ?_⟩
    rcases lookupReturned hclient h hname hr hp with
      ⟨names, exchange, hended, hmem, hreturned⟩ | ⟨hreturned, hdisturbed⟩
    · refine .inl ⟨names, exchange, hended, hmem, ?_⟩
      rw [hreturned]
      cases namesOutcome client.libraries exchange <;> rfl
    · refine .inr ⟨?_, hdisturbed⟩
      rw [hreturned]
      rfl

/-- In every run: the answer to the call of `lookup_uuid` with number `k` is `InvalidName` if
its text is no username; and otherwise what the exchange meant that ended a call with its
lowercased name, or an internal error in a run with a shutdown or a panic. -/
theorem uuid_answers {U : Type} (expiry : Cache.OptionalValueExpiry) (config : Batch.BatchConfig)
    (client : MojangHttpClient U) (hclient : client.Reliable) (es : List Event) (s : State)
    (h : (system expiry config client).run es = some s) (k : ℕ)
    (result : Except AppError UuidLookupResponse) (hresult : s.uuidResponse k = some result) :
    ∃ text, (nameTexts es)[k]? = some text ∧
      ((isValidMinecraftUsername text = false ∧ result = .error .invalidName) ∨
        isValidMinecraftUsername text = true ∧
          ((∃ names exchange, CallEnded expiry config client es names exchange ∧
              asciiLowercase text ∈ names ∧
              result = answerName (namesOutcome client.libraries exchange) text) ∨
            result = .error .internal ∧ Disturbed es)) := by
  obtain ⟨handler, hhandler, -⟩ := Option.bind_eq_some_iff.mp hresult
  obtain ⟨text, htext, -⟩ := (hears_run h).names.handler hhandler
  exact ⟨text, htext, nameAnswered hclient h hresult htext⟩

theorem uuid_answers_mixed : ∃ s names exchange result,
    (system .default Batch.smallConfig productionClient).run mixedRequests = some s ∧
    s.uuidResponse 2 = some result ∧
    CallEnded .default Batch.smallConfig productionClient mixedRequests names exchange ∧
    "steve".toList ∈ names ∧
    result = answerName (namesOutcome plainLibraries exchange) "STEVE".toList := by
  have hrun : (((system .default Batch.smallConfig productionClient).run mixedRequests).bind
      fun s => (s.uuidResponse 2).map fun result => (s.uuidHandlers.length, result.toBool)) =
        some (3, true) := by decide +kernel
  obtain ⟨s, hs, hrest⟩ := Option.bind_eq_some_iff.mp hrun
  obtain ⟨result, hresult, hvalue⟩ := Option.map_eq_some_iff.mp hrest
  obtain ⟨-, hok⟩ := Prod.mk.inj hvalue
  obtain ⟨text, htext, ⟨-, rfl⟩ | ⟨-, ⟨names, exchange, hended, hmem, hanswer⟩ | ⟨rfl, -⟩⟩⟩ :=
    uuid_answers .default Batch.smallConfig productionClient productionClient_reliable
      mixedRequests s hs 2 result hresult
  · cases hok
  · obtain rfl := Option.some.inj htext
    exact ⟨s, names, exchange, result, hs, hresult, hended, hmem, hanswer⟩
  · cases hok

/-- What a call of `lookup_skin` answers, with the cache call it got the answer from. -/
theorem skinAnswered (hclient : client.Reliable) (h : (system expiry config client).run es = some s)
    {k : ℕ} {result : Except AppError SkinLookupResponse}
    (hresult : s.skinResponse k = some result) {text : Str} (htext : (uuidTexts es)[k]? = some text) :
    (parseMinecraftUuid client.libraries.parseStr text = none ∧ result = .error .invalidUuid) ∨
      ∃ uuid r c returned origin exchange,
        parseMinecraftUuid client.libraries.parseStr text = some uuid ∧
        s.skinHandlers[k]? = some (some r) ∧ s.skins.callers[r]? = some c ∧ c.key = uuid ∧
        c.phase = .returned returned origin ∧ LoadEnded expiry config client es uuid exchange ∧
        result = answerSkin (skinOutcome client.libraries exchange) := by
  obtain ⟨handler, hhandler, hrespond⟩ := Option.bind_eq_some_iff.mp hresult
  obtain ⟨text', htext', hhandles⟩ := (hears_run h).uuids.handler hhandler
  obtain rfl := Option.some.inj (htext.symm.trans htext')
  rcases respond_cases hrespond with ⟨rfl, rfl⟩ | ⟨r, c, returned, origin, rfl, hr, hp, rfl⟩
  · exact .inl ⟨hhandles, rfl⟩
  · obtain ⟨uuid, hparse, hkey⟩ := hhandles
    obtain rfl : c.key = uuid := by
      rw [List.getElem?_map, hr] at hkey
      exact Option.some.inj hkey
    have hok := (reachable_coherent (Machine.reachable_of_run h)).callers r c hr
    simp only [SingleFlight.CallerOk, hp] at hok
    obtain ⟨-, owner, time, hload, -⟩ := hok
    obtain ⟨exchange, hended, hreturned⟩ := (records_run hclient h).skins _ _ _ _ _ hload
    refine .inr ⟨c.key, r, c, returned, origin, exchange, hparse, hhandler, hr, rfl, hp, hended, ?_⟩
    rw [hreturned]
    cases skinOutcome client.libraries exchange <;> rfl

/-- In every run: the answer to the call of `lookup_skin` with number `k` is `InvalidUuid` if
its text is no UUID, and otherwise what the exchange meant that ended a load of its skin. A
skin that was read from the cache is no older than the time to live of its kind. -/
theorem skin_answers {U : Type} (expiry : Cache.OptionalValueExpiry) (config : Batch.BatchConfig)
    (client : MojangHttpClient U) (hclient : client.Reliable) (es : List Event) (s : State)
    (h : (system expiry config client).run es = some s) (k : ℕ)
    (result : Except AppError SkinLookupResponse) (hresult : s.skinResponse k = some result) :
    ∃ text, (uuidTexts es)[k]? = some text ∧
      ((parseMinecraftUuid client.libraries.parseStr text = none ∧
          result = .error .invalidUuid) ∨
        ∃ uuid r c returned origin exchange,
          parseMinecraftUuid client.libraries.parseStr text = some uuid ∧
          s.skinHandlers[k]? = some (some r) ∧ s.skins.callers[r]? = some c ∧ c.key = uuid ∧
          c.phase = .returned returned origin ∧
          LoadEnded expiry config client es uuid exchange ∧
          result = answerSkin (skinOutcome client.libraries exchange) ∧
          ∀ property load storedAt readAt, returned = .ok property →
            origin = .cached load storedAt readAt → storedAt ≤ readAt ∧ readAt < storedAt +
              if property.isSome then expiry.positiveTtl else expiry.negativeTtl) := by
  obtain ⟨handler, hhandler, -⟩ := Option.bind_eq_some_iff.mp hresult
  obtain ⟨text, htext, -⟩ := (hears_run h).uuids.handler hhandler
  refine ⟨text, htext, ?_⟩
  rcases skinAnswered hclient h hresult htext with hinvalid |
    ⟨uuid, r, c, returned, origin, exchange, hparse, hk, hr, hkey, hp, hended, hresult⟩
  · exact .inl hinvalid
  · refine .inr ⟨uuid, r, c, returned, origin, exchange, hparse, hk, hr, hkey, hp, hended,
      hresult, ?_⟩
    rintro property load storedAt readAt rfl rfl
    have hok := (reachable_coherent (Machine.reachable_of_run h)).callers r c hr
    simp only [SingleFlight.CallerOk, hp] at hok
    obtain ⟨-, owner, time, -, hintime⟩ := hok
    exact hintime.2

theorem skin_answers_mixed : ∃ s uuid exchange result,
    (system .default Batch.smallConfig productionClient).run mixedRequests = some s ∧
    s.skinResponse 0 = some result ∧
    LoadEnded .default Batch.smallConfig productionClient mixedRequests uuid exchange ∧
    result = answerSkin (skinOutcome plainLibraries exchange) := by
  have hrun : (((system .default Batch.smallConfig productionClient).run mixedRequests).bind
      fun s => (s.skinResponse 0).map fun result => result.toBool) = some false := by
    decide +kernel
  obtain ⟨s, hs, hrest⟩ := Option.bind_eq_some_iff.mp hrun
  obtain ⟨result, hresult, -⟩ := Option.map_eq_some_iff.mp hrest
  obtain ⟨text, htext, ⟨hinvalid, -⟩ | ⟨uuid, -, -, -, -, exchange, -, -, -, -, -, hended, hanswer,
      -⟩⟩ := skin_answers .default Batch.smallConfig productionClient productionClient_reliable
    mixedRequests s hs 0 result hresult
  · obtain rfl := Option.some.inj htext
    have hvalid : (parseMinecraftUuid productionClient.libraries.parseStr
        "b1ae07784817436c96a3a72c67cda060".toList).isSome = true := by decide +kernel
    rw [hinvalid] at hvalid
    cases hvalid
  · exact ⟨s, uuid, exchange, result, hs, hresult, hended, hanswer⟩

end MojangApi.App
