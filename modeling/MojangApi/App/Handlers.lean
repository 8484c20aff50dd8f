import MojangApi.Lookup.System
import MojangApi.Mojang.Client

/-! # `lookup_uuid` and `lookup_skin`

A handler counts its request, checks its argument and asks a cache: the one of
names, whose loaders go through the batch processor, or the one of skins, whose
loaders call Mojang themselves. All of them share one set of counters.
-/

namespace MojangApi.App
open MojangApi Library Mojang

inductive AppError where
  | invalidName
  | invalidUuid
  | timeout
  | internal
  deriving DecidableEq, Repr

def AppError.fromUpstream : UpstreamError → AppError
  | .timeout => .timeout
  | .httpStatus _ | .transport | .invalidResponse => .internal

structure UuidLookupResponse where
  «exists» : Bool
  uuid : Option Uuid

structure SkinLookupResponse where
  «exists» : Bool
  skinProperty : Option SkinProperty

abbrev SkinCache := SingleFlight.State Uuid (Option SkinProperty) UpstreamError

/-- One entry for each call of a handler: the number of its cache call, unless the
argument was rejected. -/
structure State where
  lookup : Lookup.State
  skins : SkinCache := {}
  uuidHandlers : List (Option ℕ) := []
  skinHandlers : List (Option ℕ) := []

inductive Event where
  | lookupUuid (name : Str)
  | lookupSkin (uuid : Str)
  | names (e : Lookup.Event Exchange)
  | enterSkin (r : ℕ)
  | finishSkin (i : ℕ) (exchange : Exchange)
  | wakeSkin (r : ℕ)
  | dropSkin (r : ℕ)
  | evictSkin (uuid : Uuid)
  | elapse (d : ℕ)

def countSkinHit (skins : SkinCache) (r : ℕ) (metrics : Metrics) : Metrics :=
  if skins.servedFromCache r then metrics.incrementSkinCacheHits else metrics

/-- What a handler answers once its cache call has returned. -/
def respond {κ ν α : Type} (cache : SingleFlight.State κ ν UpstreamError) (rejected : AppError)
    (response : ν → α) : Option ℕ → Option (Except AppError α)
  | none => some (.error rejected)
  | some r =>
    match (cache.callers[r]?).map SingleFlight.Caller.phase with
    | some (.returned (.ok value) _) => some (.ok (response value))
    | some (.returned (.error error) _) => some (.error (.fromUpstream error))
    | _ => none

namespace State

def metrics (s : State) : Metrics := s.lookup.processor.metrics

def setLookup (s : State) (lookup : Lookup.State) : State := { s with lookup := lookup }

def setSkins (s : State) (skins : SkinCache) : State := { s with skins := skins }

def countMetrics (s : State) (metrics : Metrics) : State :=
  s.setLookup (s.lookup.countMetrics metrics)

/-- What the call of `lookup_uuid` with number `k` returns. -/
def uuidResponse (s : State) (k : ℕ) : Option (Except AppError UuidLookupResponse) :=
  (s.uuidHandlers[k]?).bind <| respond s.lookup.cache .invalidName fun uuid =>
    ⟨uuid.isSome, uuid⟩

def skinResponse (s : State) (k : ℕ) : Option (Except AppError SkinLookupResponse) :=
  (s.skinHandlers[k]?).bind <| respond s.skins .invalidUuid fun property =>
    ⟨property.isSome, property⟩

def lookupUuid (s : State) (name : Str) : Option State :=
  let counted := s.lookup.countMetrics s.metrics.incrementUuidRequests
  if !isValidMinecraftUsername name then
    some { s with lookup := counted, uuidHandlers := s.uuidHandlers ++ [none] }
  else (counted.lookup name).map fun lookup =>
    { s with
      lookup := lookup
      uuidHandlers := s.uuidHandlers ++ [some s.lookup.cache.callers.length] }

variable {U : Type} (client : MojangHttpClient U)

def lookupSkin (s : State) (value : Str) : State :=
  let counted := s.countMetrics s.metrics.incrementSkinRequests
  match parseMinecraftUuid client.libraries.parseStr value with
  | none => { counted with skinHandlers := s.skinHandlers ++ [none] }
  | some uuid => { counted with
      skins := s.skins.call uuid
      skinHandlers := s.skinHandlers ++ [some s.skins.callers.length] }

/-- A caller that becomes the loader counts a miss and sends its request. -/
def enterSkin (s : State) (expiry : Cache.OptionalValueExpiry) (r : ℕ) : Option State :=
  (s.skins.enter expiry.ttlFor r).map fun skins =>
    match skins.loads[s.skins.loads.length]? with
    | none => (s.setSkins skins).countMetrics (countSkinHit skins r s.metrics)
    | some load =>
      let metrics := s.metrics.incrementSkinCacheMisses
      (s.setSkins skins).countMetrics ((client.lookupSkinStart load.key).run.run metrics).2

def finishSkin (s : State) (i : ℕ) (exchange : Exchange) : Option State :=
  (s.skins.loads[i]?).bind fun load =>
    let (metrics, result) := MojangHttpClient.afterStart (client.lookupSkinStart load.key)
      (client.lookupSkinFinish exchange) s.metrics
    (s.skins.finish i result).map fun skins =>
      (s.setSkins skins).countMetrics (countSkinHit skins load.owner metrics)

def wakeSkin (s : State) (r : ℕ) : Option State :=
  (s.skins.wake r).map fun skins =>
    (s.setSkins skins).countMetrics (countSkinHit skins r s.metrics)

def dropSkin (s : State) (r : ℕ) : Option State := (s.skins.drop r).map s.setSkins

/-- Both caches follow one clock. -/
def elapse (s : State) (d : ℕ) : State :=
  { s with
    lookup := s.lookup.setCache (s.lookup.cache.elapse d)
    skins := s.skins.elapse d }

section Fields
variable (s : State) (metrics : Metrics)

@[simp] theorem countMetrics_lookup :
    (s.countMetrics metrics).lookup = s.lookup.countMetrics metrics := rfl
@[simp] theorem countMetrics_skins : (s.countMetrics metrics).skins = s.skins := rfl
@[simp] theorem countMetrics_uuidHandlers :
    (s.countMetrics metrics).uuidHandlers = s.uuidHandlers := rfl
@[simp] theorem countMetrics_skinHandlers :
    (s.countMetrics metrics).skinHandlers = s.skinHandlers := rfl

end Fields
end State

/-- What happens to a lookup after its call: not the call itself, the clock or the counters
of others. -/
def isInternal : Lookup.Event Exchange → Bool
  | .lookup _ | .elapse _ | .count _ => false
  | _ => true

def system {U : Type} (expiry : Cache.OptionalValueExpiry) (config : Batch.BatchConfig)
    (client : MojangHttpClient U) : Machine State Event where
  init := { lookup := (Lookup.system expiry config client.service).init }
  step s
    | .lookupUuid name => s.lookupUuid name
    | .lookupSkin uuid => some (s.lookupSkin client uuid)
    | .names e =>
      if isInternal e then
        ((Lookup.system expiry config client.service).step s.lookup e).map s.setLookup
      else none
    | .enterSkin r => s.enterSkin client expiry r
    | .finishSkin i exchange => s.finishSkin client i exchange
    | .wakeSkin r => s.wakeSkin r
    | .dropSkin r => s.dropSkin r
    | .evictSkin uuid => some (s.setSkins (s.skins.evict uuid))
    | .elapse d => some (s.elapse d)

end MojangApi.App
