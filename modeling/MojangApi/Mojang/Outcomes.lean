import MojangApi.Mojang.Accounting

/-! # What an exchange means for the call that made it

The result of a call is a function of what happened on the wire alone: neither the
counters nor the sizes of the chunks have a part in it.
-/

namespace MojangApi.Mojang
open MojangApi

def Exchange.failure (timeout : Bool) : UpstreamError := if timeout then .timeout else .transport

/-- The status and the whole body, or why they did not come. -/
def Exchange.outcome : Exchange → Except UpstreamError (ℕ × Bytes)
  | .failed timeout => .error (failure timeout)
  | .responded status contentLength chunks broken =>
    if WithinLimit contentLength chunks.flatten then
      broken.elim (.ok (status, chunks.flatten)) fun timeout => .error (failure timeout)
    else .error .invalidResponse

/-- What is decoded from a body, if anything. -/
def decoded {α : Type} : Option α → Except UpstreamError α
  | some value => .ok value
  | none => .error .invalidResponse

/-- The pairs of a list of profiles, if every UUID can be read. -/
def pairsOf (parseStr : Str → Option Uuid) (profiles : List MojangBatchProfile) :
    Option Batch.Profiles :=
  profiles.mapM fun profile =>
    (parseMinecraftUuid parseStr profile.id).map fun uuid => (profile.name, uuid)

/-- The first property called `textures`. -/
def texturesOf (profile : MojangProfile) : Option SkinProperty :=
  (profile.properties.find? fun property => property.name = "textures".toList).map
    fun property => ⟨property.value, property.signature⟩

section Meanings
variable {U : Type} (libraries : Libraries U)

def namesOfBody (body : Bytes) : Except UpstreamError Batch.Profiles :=
  decoded ((libraries.profilesFromSlice body).bind (pairsOf libraries.parseStr))

def namesOutcome (exchange : Exchange) : Except UpstreamError Batch.Profiles :=
  exchange.outcome.bind fun (status, body) =>
    if isSuccess status then namesOfBody libraries body else .error (.httpStatus status)

def skinOfBody (body : Bytes) : Except UpstreamError (Option SkinProperty) :=
  (decoded (libraries.profileFromSlice body)).map texturesOf

def skinOutcome (exchange : Exchange) : Except UpstreamError (Option SkinProperty) :=
  exchange.outcome.bind fun (status, body) =>
    if status = noContent then .ok none
    else if isSuccess status then skinOfBody libraries body
    else .error (.httpStatus status)

end Meanings

section Stretches
variable {U : Type} {client : MojangHttpClient U} {metrics : Metrics}

/-- The result of two stretches is that of the first, continued. -/
theorem fst_bind {α β : Type} {x : Counting α} {f : α → Counting β} {r : Except UpstreamError α}
    {g : α → Except UpstreamError β} (hx : ∀ metrics : Metrics, (x.run.run metrics).1 = r)
    (hf : ∀ a (metrics : Metrics), ((f a).run.run metrics).1 = g a) :
    ((x >>= f).run.run metrics).1 = r.bind g := by
  cases hresult : r with
  | error error =>
    rw [run_bind_error ((hx metrics).trans hresult)]
    rfl
  | ok a =>
    rw [run_bind_ok ((hx metrics).trans hresult)]
    exact hf a _

/-- A body that breaks off is too long first, if what came of it is. -/
theorem sendFinish_broken_within {status : ℕ} {contentLength : Option ℕ} {chunks : List Bytes}
    (h : WithinLimit contentLength chunks.flatten) (timeout : Bool) :
    sendFinish (.responded status contentLength chunks (some timeout)) =
      transportError timeout := by
  have hall : accumulate { capacity := initialCapacity contentLength } chunks =
      ({ capacity := initialCapacity contentLength, bytes := chunks.flatten }, true) :=
    accumulate_fits h.2
  have hread : readBody chunks (some timeout) { capacity := initialCapacity contentLength } =
      transportError timeout := by
    unfold readBody
    rw [hall]
  rw [sendFinish, declared_within h.1, if_neg Bool.false_ne_true, hread]
  rfl

theorem sendFinish_outcome (exchange : Exchange) (metrics : Metrics) :
    ((sendFinish exchange).run.run metrics).1 = exchange.outcome := by
  cases exchange with
  | failed timeout => rfl
  | responded status contentLength chunks broken =>
    by_cases hwithin : WithinLimit contentLength chunks.flatten
    · rw [Exchange.outcome, if_pos hwithin]
      cases broken with
      | none =>
        rw [sendFinish_within hwithin]
        rfl
      | some timeout =>
        rw [sendFinish_broken_within hwithin]
        rfl
    · rw [Exchange.outcome, if_neg hwithin, sendFinish_beyond hwithin]
      rfl

theorem decoded_bind {α β : Type} (value : Option α) (f : α → Option β) :
    decoded (value.bind f) = (decoded value).bind fun a => decoded (f a) := by
  cases value <;> rfl

theorem collectProfiles_outcome (profiles : List MojangBatchProfile) (metrics : Metrics) :
    ((client.collectProfiles profiles).run.run metrics).1 =
      decoded (pairsOf client.libraries.parseStr profiles) := by
  induction profiles generalizing metrics with
  | nil => rfl
  | cons profile profiles ih =>
    have hrest : ∀ (pair : Str × Uuid) (metrics : Metrics),
        ((client.collectProfiles profiles >>= fun rest =>
          (pure (pair :: rest) : Counting Batch.Profiles)).run.run metrics).1 =
        (decoded (pairsOf client.libraries.parseStr profiles)).bind fun rest =>
          .ok (pair :: rest) := fun pair metrics => fst_bind ih fun rest metrics => rfl
    rw [MojangHttpClient.collectProfiles, List.mapM_cons]
    refine (fst_bind (r := decoded ((parseMinecraftUuid client.libraries.parseStr profile.id).map
      fun uuid => (profile.name, uuid))) (fun metrics => ?_) hrest).trans ?_
    · cases parseMinecraftUuid client.libraries.parseStr profile.id <;> rfl
    have hpairs : pairsOf client.libraries.parseStr (profile :: profiles) =
        ((parseMinecraftUuid client.libraries.parseStr profile.id).map fun uuid =>
          (profile.name, uuid)).bind fun pair =>
            (pairsOf client.libraries.parseStr profiles).bind fun rest => some (pair :: rest) := by
      rw [pairsOf, List.mapM_cons]
      rfl
    rw [hpairs, decoded_bind]
    refine congrArg _ (funext fun pair => ?_)
    rw [decoded_bind]
    rfl

/-- A result is a function of the exchange. -/
theorem lookupNamesFinish_outcome (exchange : Exchange) (metrics : Metrics) :
    ((client.lookupNamesFinish exchange).run.run metrics).1 =
      namesOutcome client.libraries exchange := by
  apply fst_bind (sendFinish_outcome exchange)
  rintro ⟨status, body⟩ metrics
  by_cases hsuccess : isSuccess status = true
  · simp only [hsuccess, Bool.not_true, Bool.false_eq_true, if_false, if_true, namesOfBody]
    cases client.libraries.profilesFromSlice body with
    | none => rfl
    | some profiles => exact collectProfiles_outcome profiles metrics
  · simp only [hsuccess, Bool.not_false, if_true, Bool.false_eq_true, if_false]
    rfl

theorem lookupSkinFinish_outcome (exchange : Exchange) (metrics : Metrics) :
    ((client.lookupSkinFinish exchange).run.run metrics).1 =
      skinOutcome client.libraries exchange := by
  apply fst_bind (sendFinish_outcome exchange)
  rintro ⟨status, body⟩ metrics
  by_cases hnone : status = noContent
  · simp only [hnone, if_true]
    rfl
  · by_cases hsuccess : isSuccess status = true
    · simp only [hnone, hsuccess, Bool.not_true, Bool.false_eq_true, if_false, if_true, skinOfBody]
      cases client.libraries.profileFromSlice body <;> rfl
    · simp only [hnone, hsuccess, Bool.not_false, if_true, Bool.false_eq_true, if_false]
      rfl

/-- A call of a client whose libraries can be relied on ends with what its exchange means. -/
theorem service_outcome (hclient : client.Reliable) (names : List Str) (exchange : Exchange)
    (metrics : Metrics) : (client.service.finish names exchange metrics).2 =
      namesOutcome client.libraries exchange := by
  obtain ⟨body, -, hsends⟩ := MojangHttpClient.sends_lookupNamesStart hclient names
  change (MojangHttpClient.afterStart _ _ metrics).2 = _
  rw [MojangHttpClient.afterStart_eq hsends.sends]
  exact lookupNamesFinish_outcome exchange metrics

theorem skin_outcome (hclient : client.Reliable) (uuid : Uuid) (exchange : Exchange)
    (metrics : Metrics) :
    (MojangHttpClient.afterStart (client.lookupSkinStart uuid) (client.lookupSkinFinish exchange)
      metrics).2 = skinOutcome client.libraries exchange := by
  rw [MojangHttpClient.afterStart_eq (MojangHttpClient.sends_lookupSkinStart hclient uuid).sends]
  exact lookupSkinFinish_outcome exchange metrics

end Stretches

/-- Whether the transport gave up waiting, for the response or for the rest of a body that
was not too long yet. -/
def Exchange.TimedOut : Exchange → Prop
  | .failed timeout => timeout = true
  | .responded _ contentLength chunks broken =>
    WithinLimit contentLength chunks.flatten ∧ broken = some true

section Timeouts
variable {U : Type} {libraries : Libraries U} {exchange : Exchange}

theorem failure_timeout {timeout : Bool} : Exchange.failure timeout = .timeout ↔ timeout = true := by
  cases timeout <;> simp [Exchange.failure]

theorem outcome_timeout : exchange.outcome = .error .timeout ↔ exchange.TimedOut := by
  cases exchange with
  | failed timeout => simp [Exchange.outcome, Exchange.TimedOut, failure_timeout]
  | responded status contentLength chunks broken =>
    by_cases hwithin : WithinLimit contentLength chunks.flatten
    · rw [Exchange.outcome, if_pos hwithin, Exchange.TimedOut]
      cases broken <;> simp [hwithin, failure_timeout]
    · rw [Exchange.outcome, if_neg hwithin, Exchange.TimedOut]
      simp [hwithin]

theorem decoded_ne_timeout {α : Type} (value : Option α) : decoded value ≠ .error .timeout := by
  cases value <;> simp [decoded]

/-- Nothing but the transport makes a call end with a timeout. -/
theorem bind_timeout {α β : Type} {x : Except UpstreamError α} {f : α → Except UpstreamError β}
    (h : ∀ a, f a ≠ .error .timeout) : x.bind f = .error .timeout ↔ x = .error .timeout := by
  cases x with
  | error error => simp [Except.bind]
  | ok a => simpa [Except.bind] using h a

theorem names_timeout : namesOutcome libraries exchange = .error .timeout ↔ exchange.TimedOut := by
  rw [namesOutcome, bind_timeout, outcome_timeout]
  rintro ⟨status, body⟩
  dsimp only
  split
  · exact decoded_ne_timeout _
  · simp

theorem skin_timeout : skinOutcome libraries exchange = .error .timeout ↔ exchange.TimedOut := by
  rw [skinOutcome, bind_timeout, outcome_timeout]
  rintro ⟨status, body⟩
  dsimp only
  split
  · simp
  · split
    · cases hdecoded : libraries.profileFromSlice body <;>
        simp [skinOfBody, hdecoded, decoded, Except.map]
    · simp

end Timeouts
end MojangApi.Mojang
