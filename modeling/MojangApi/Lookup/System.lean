import MojangApi.Batch.Limits
import MojangApi.Cache
import MojangApi.Library.SingleFlight.Invariants

/-! # Lookups, their loaders and the batch processor

A lookup enters the cache under its lowercased name. A loader counts a miss,
opens a response channel, sends itself into the queue and awaits its answer; its
future dies with its caller, but what it has put into the queue travels on. The
number of a load is also the number of its response channel. Other handlers use
the same counters.
-/

namespace MojangApi.Lookup
open MojangApi Library

abbrev CacheState := SingleFlight.State Str (Option Uuid) UpstreamError

/-- Where the future of a loader is suspended. -/
inductive SendPhase where
  | sending
  | granted
  | receiving
  deriving DecidableEq, Repr

/-- `requests` are the names as the clients wrote them, one for each caller of the cache. -/
structure State where
  cache : CacheState := {}
  requests : List Str := []
  sends : List SendPhase := []
  processor : Batch.State

inductive Event (ρ : Type*) where
  | lookup (name : Str)
  | enter (r : ℕ)
  | reserve (i : ℕ)
  | push (i : ℕ)
  | sendError (i : ℕ)
  | receive (i : ℕ)
  | wake (r : ℕ)
  | drop (r : ℕ)
  | elapse (d : ℕ)
  | evict (name : Str)
  | process (e : Batch.Event ρ)
  | count (metrics : Metrics)

/-- A caller that has just been given a value it did not load counts a hit. -/
def countHit (cache : CacheState) (r : ℕ) (metrics : Metrics) : Metrics :=
  if cache.servedFromCache r then metrics.incrementUuidCacheHits else metrics

def settled (cache : CacheState) : Bool :=
  cache.callers.all fun caller => match caller.phase with
    | .returned _ _ | .dropped => true
    | _ => false

namespace State

def setSend (s : State) (i : ℕ) (phase : SendPhase) : State :=
  { s with sends := s.sends.set i phase }

def setProcessor (s : State) (processor : Batch.State) : State := { s with processor := processor }

def setCache (s : State) (cache : CacheState) : State := { s with cache := cache }

def countMetrics (s : State) (metrics : Metrics) : State :=
  s.setProcessor (s.processor.count metrics)

/-- The message of a load, as long as its future is alive and suspended in `phase`. -/
def message (s : State) (i : ℕ) (phase : SendPhase) : Option Batch.PendingLookup :=
  match s.cache.loads[i]?, s.sends[i]? with
  | some ⟨key, _, .running⟩, some phase' => if phase' = phase then some ⟨key, i⟩ else none
  | _, _ => none

/-- `lookup` lowercases its name and needs a handle. -/
def lookup (s : State) (name : Str) : Option State :=
  if s.processor.sendersGone then none
  else some { s with
    cache := s.cache.call (asciiLowercase name), requests := s.requests ++ [name] }

/-- A caller that becomes the loader counts a miss and starts to send. -/
def enter (s : State) (expiry : Cache.OptionalValueExpiry) (r : ℕ) : Option State :=
  (s.cache.enter expiry.ttlFor r).map fun cache =>
    if cache.loads.length = s.cache.loads.length then
      (s.setCache cache).countMetrics (countHit cache r s.processor.metrics)
    else { s.setCache cache with
      sends := s.sends ++ [.sending]
      processor := s.processor.count s.processor.metrics.incrementUuidCacheMisses }

def reserve (s : State) (i : ℕ) : Option State :=
  (s.message i .sending).bind fun lookup =>
    (s.processor.reserve lookup).map fun processor =>
      (s.setProcessor processor).setSend i .granted

def push (s : State) (i : ℕ) : Option State :=
  (s.message i .granted).bind fun lookup =>
    (s.processor.push lookup).map fun processor =>
      (s.setProcessor processor).setSend i .receiving

/-- The loader of load `i` returns to its owner. -/
def resolve (s : State) (i : ℕ) (result : Batch.LookupResult) : Option State :=
  (s.cache.finish i result).map fun cache =>
    let owner := (s.cache.loads[i]?).elim 0 SingleFlight.Load.owner
    (s.setCache cache).countMetrics (countHit cache owner s.processor.metrics)

/-- The queue was closed before the loader got a slot. -/
def sendError (s : State) (i : ℕ) : Option State :=
  (s.message i .sending).bind fun _ =>
    if s.processor.channel.closed then s.resolve i (.error .transport) else none

/-- The response channel is resolved, and its receiver goes away with the loader. -/
def receive (s : State) (i : ℕ) : Option State :=
  (s.message i .receiving).bind fun _ =>
    (s.processor.disposals.find? fun p => p.1 = i).bind fun p =>
      (s.setProcessor (s.processor.dropReceiver i)).resolve i p.2.received

def wake (s : State) (r : ℕ) : Option State :=
  (s.cache.wake r).map fun cache =>
    (s.setCache cache).countMetrics (countHit cache r s.processor.metrics)

/-- A dropped loader gives its slot back, or leaves its message in the queue. -/
def abandon (s : State) (i : ℕ) (key : Str) : Option State :=
  match s.sends[i]? with
  | some .sending => some s
  | some .granted => (s.processor.revoke ⟨key, i⟩).map s.setProcessor
  | some .receiving => some (s.setProcessor (s.processor.dropReceiver i))
  | none => none

def drop (s : State) (r : ℕ) : Option State :=
  (s.cache.drop r).bind fun cache =>
    match s.cache.callers[r]? with
    | some ⟨key, .loading i, _, _⟩ => (s.setCache cache).abandon i key
    | _ => some (s.setCache cache)

/-- The handles are gone only after the calls that use them. -/
def process {ρ : Type*} (s : State) (config : Batch.BatchConfig)
    (service : Batch.MojangService ρ) (e : Batch.Event ρ) : Option State :=
  if e.own && (settled s.cache || !e.isDropSenders) then
    ((Batch.processor config service).step s.processor e).map s.setProcessor
  else none

end State

def system {ρ : Type*} (expiry : Cache.OptionalValueExpiry) (config : Batch.BatchConfig)
    (service : Batch.MojangService ρ) : Machine State (Event ρ) where
  init := { processor := .init config }
  step s
    | .lookup name => s.lookup name
    | .enter r => s.enter expiry r
    | .reserve i => s.reserve i
    | .push i => s.push i
    | .sendError i => s.sendError i
    | .receive i => s.receive i
    | .wake r => s.wake r
    | .drop r => s.drop r
    | .elapse d => some (s.setCache (s.cache.elapse d))
    | .evict name => some (s.setCache (s.cache.evict name))
    | .process e => s.process config service e
    | .count metrics => some (s.countMetrics metrics)

/-- A lookup that has the system for itself; the tick flushes it. -/
def soleLookup (name : Str) : List (Event Unit) :=
  [.lookup name, .enter 0, .reserve 0, .push 0, .process .firstTick, .process .recvBranch,
    .process .tickBranch, .process .acquire, .process (.pollTask 0),
    .process (.completeTask 0 ()), .receive 0]

end MojangApi.Lookup
