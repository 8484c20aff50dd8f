import MojangApi.Batch.Process
import MojangApi.Library.Channel
import MojangApi.Library.Machine

/-! # `run_batch_processor` and its batch tasks

Each stretch between two await points is one step, and the senders, the
requesters, the other users of the counters and the batch tasks take theirs in
any order. A permit lives as long as its task. The queue, the semaphore and the
tasks are bounded by nothing but the configuration. An owner that aborts the
processor is added in `Batch.Shutdown`.
-/

namespace MojangApi.Batch
open MojangApi Library

structure BatchConfig where
  size : ℕ
  interval : ℕ
  queueCapacity : ℕ
  maxInFlightBatches : ℕ
  size_pos : 0 < size
  interval_pos : 0 < interval
  queueCapacity_pos : 0 < queueCapacity
  maxInFlightBatches_pos : 0 < maxInFlightBatches

inductive BatchConfigError where
  | zeroSize
  | zeroInterval
  | zeroQueueCapacity
  | zeroMaxInFlightBatches
  deriving DecidableEq, Repr

def BatchConfig.new (size interval queueCapacity maxInFlightBatches : ℕ) :
    Except BatchConfigError BatchConfig :=
  if hs : size = 0 then .error .zeroSize
  else if hi : interval = 0 then .error .zeroInterval
  else if hq : queueCapacity = 0 then .error .zeroQueueCapacity
  else if hm : maxInFlightBatches = 0 then .error .zeroMaxInFlightBatches
  else .ok ⟨size, interval, queueCapacity, maxInFlightBatches, Nat.pos_of_ne_zero hs,
    Nat.pos_of_ne_zero hi, Nat.pos_of_ne_zero hq, Nat.pos_of_ne_zero hm⟩

theorem BatchConfig.new_ok {size interval queueCapacity maxInFlightBatches : ℕ}
    {config : BatchConfig}
    (h : BatchConfig.new size interval queueCapacity maxInFlightBatches = .ok config) :
    config.size = size ∧ config.interval = interval ∧ config.queueCapacity = queueCapacity ∧
      config.maxInFlightBatches = maxInFlightBatches := by
  unfold BatchConfig.new at h
  split at h <;> try contradiction
  split at h <;> try contradiction
  split at h <;> try contradiction
  split at h <;> try contradiction
  obtain rfl := Except.ok.inj h
  exact ⟨rfl, rfl, rfl, rfl⟩

/-- What became of a response sender: a value was sent, or it was dropped. -/
inductive Disposal where
  | sent (result : LookupResult)
  | dropped

/-- What the requester gets from `receiver.await`. -/
def Disposal.received : Disposal → LookupResult
  | .sent result => result
  | .dropped => .error .transport

/-- The place `spawn_batch` was called from. -/
inductive Site where
  | loop
  | drain
  | final
  deriving DecidableEq, Repr

/-- Where the processor is suspended. -/
inductive Point where
  | firstTick
  | selecting
  | draining
  | acquiring (batch : List PendingLookup) (site : Site)
  | joining
  | returned
  deriving DecidableEq, Repr

def Site.resume : Site → Point
  | .loop => .selecting
  | .drain => .draining
  | .final => .joining

/-- A batch task in the join set, with the lookups whose senders it holds. -/
inductive Task where
  | spawned (batch : List PendingLookup)
  | calling (kept : List PendingLookup)
  | finished (panicked : Bool)
  deriving DecidableEq, Repr

def Task.lookups : Task → List PendingLookup
  | .spawned batch => batch
  | .calling kept => kept
  | .finished _ => []

def Task.unfinished : Task → ℕ
  | .finished _ => 0
  | _ => 1

def droppedSenders (lookups : List PendingLookup) : List (ℕ × Disposal) :=
  lookups.map fun lookup => (lookup.response, .dropped)

def sentResponses (sent : List (ℕ × LookupResult)) : List (ℕ × Disposal) :=
  sent.map fun message => (message.1, .sent message.2)

/-- The last seven fields record what has happened so far. -/
structure State where
  channel : Channel PendingLookup
  sendersGone : Bool := false
  shutdown : Bool := false
  point : Point := .firstTick
  pending : List PendingLookup := []
  permits : ℕ
  semaphoreClosed : Bool := false
  tasks : List Task := []
  gone : List ℕ := []
  metrics : Metrics := {}
  disposals : List (ℕ × Disposal) := []
  issued : List ℕ := []
  accepted : List PendingLookup := []
  handed : List (List PendingLookup) := []
  calls : List (List Str) := []
  answered : List (List Str × Except UpstreamError Profiles) := []
  panicked : List (List PendingLookup) := []
  rejected : List (List PendingLookup) := []

namespace State

/-- `response.is_closed()`: the requester has dropped its receiver. -/
def isClosed (s : State) (response : ℕ) : Bool := s.gone.contains response

def setChannel (s : State) (channel : Channel PendingLookup) : State :=
  { s with channel := channel }

def setPoint (s : State) (point : Point) : State := { s with point := point }

/-- A requester asks for a slot in the queue, for a response channel of its own. -/
def reserve (s : State) (lookup : PendingLookup) : Option State :=
  if s.sendersGone || s.issued.contains lookup.response then none
  else match s.channel.reserve lookup with
    | .granted channel =>
      some { s with channel := channel, issued := lookup.response :: s.issued }
    | _ => none

def push (s : State) (lookup : PendingLookup) : Option State :=
  (s.channel.push lookup).map fun channel =>
    { s with channel := channel, accepted := s.accepted ++ [lookup] }

def revoke (s : State) (lookup : PendingLookup) : Option State :=
  (s.channel.revoke lookup).map s.setChannel

def dropReceiver (s : State) (response : ℕ) : State := { s with gone := response :: s.gone }

def dropSenders (s : State) : Option State :=
  if s.channel.granted.isEmpty then some { s with sendersGone := true } else none

def count (s : State) (metrics : Metrics) : State := { s with metrics := metrics }

def firstTick (s : State) : Option State :=
  if s.point = .firstTick then some (s.setPoint .selecting) else none

/-- Hand the collected lookups to `spawn_batch`, which waits for a permit first. -/
def flush (s : State) (batch : List PendingLookup) (site : Site) : State :=
  { s with pending := [], point := .acquiring batch site, handed := s.handed ++ [batch] }

def collect (s : State) (config : BatchConfig) (lookup : PendingLookup) (site : Site) : State :=
  let pending := s.pending ++ [lookup]
  if config.size ≤ pending.length then s.flush pending site else { s with pending := pending }

def shutdownBranch (s : State) : Option State :=
  if s.point = .selecting && s.shutdown then
    some ((s.setChannel s.channel.close).setPoint .draining)
  else none

def recvBranch (s : State) (config : BatchConfig) : Option State :=
  if s.point = .selecting && !s.shutdown then
    match s.channel.recv s.sendersGone with
    | .item lookup channel => some ((s.setChannel channel).collect config lookup .loop)
    | .finished => some (s.setPoint .draining)
    | .pending => none
  else none

/-- `biased`: the tick and the join are looked at when nothing before them is ready. -/
def idle (s : State) : Bool :=
  s.point = .selecting && !s.shutdown && (s.channel.recv s.sendersGone).isPending

def tickBranch (s : State) : Option State :=
  if s.idle then
    if s.pending.isEmpty then some s else some (s.flush s.pending .loop)
  else none

/-- `join_next` takes a task that has ended out of the set. -/
def join (s : State) (i : ℕ) : Option State :=
  match s.tasks[i]? with
  | some (.finished _) => some { s with tasks := s.tasks.eraseIdx i }
  | _ => none

def joinBranch (s : State) (i : ℕ) : Option State := if s.idle then s.join i else none

def drainRecv (s : State) (config : BatchConfig) : Option State :=
  if s.point = .draining then
    match s.channel.recv s.sendersGone with
    | .item lookup channel => some ((s.setChannel channel).collect config lookup .drain)
    | .finished =>
      if s.pending.isEmpty then some (s.setPoint .joining) else some (s.flush s.pending .final)
    | .pending => none
  else none

def dispose (s : State) (disposals : List (ℕ × Disposal)) : State :=
  { s with disposals := s.disposals ++ disposals }

/-- The rest of `spawn_batch`, after its wait. -/
def acquire (s : State) : Option State :=
  match s.point with
  | .acquiring batch site =>
    if s.semaphoreClosed then
      some { s with
        point := site.resume
        rejected := s.rejected ++ [batch]
        disposals := s.disposals ++ sentResponses (rejectBatch batch .transport) }
    else if s.permits = 0 then none
    else some { s with
      point := site.resume
      permits := s.permits - 1
      tasks := s.tasks ++ [.spawned batch] }
  | _ => none

def joinNext (s : State) (i : ℕ) : Option State := if s.point = .joining then s.join i else none

def finish (s : State) : Option State :=
  if s.point = .joining && s.tasks.isEmpty then some (s.setPoint .returned) else none

/-- A task ends, and its permit goes back to the semaphore. -/
def endTask (s : State) (i : ℕ) (panicked : Bool) : State :=
  { s with tasks := s.tasks.set i (.finished panicked), permits := s.permits + 1 }

variable {ρ : Type*} (service : MojangService ρ)

/-- A batch task runs up to its call, or to its end when no requester is left. -/
def pollTask (s : State) (i : ℕ) : Option State :=
  match s.tasks[i]? with
  | some (.spawned batch) =>
    let kept := openLookups s.isClosed batch
    let closed := batch.filter fun lookup => s.isClosed lookup.response
    let s := s.dispose (droppedSenders closed)
    if kept.isEmpty then some (s.endTask i false)
    else some { s with
      tasks := s.tasks.set i (.calling kept)
      metrics := startBatch service kept s.metrics
      calls := s.calls ++ [names kept] }
  | _ => none

/-- The call returns, and every kept lookup is answered. -/
def completeTask (s : State) (i : ℕ) (outcome : ρ) : Option State :=
  match s.tasks[i]? with
  | some (.calling kept) =>
    let result := (service.finish (names kept) outcome s.metrics).2
    let (metrics, sent) := finishBatch service kept outcome s.metrics
    let s := s.dispose (sentResponses sent)
    let s : State := { s with metrics := metrics, answered := s.answered ++ [(names kept, result)] }
    some (s.endTask i false)
  | _ => none

/-- The call panics, and the senders of the kept lookups are dropped. -/
def panicTask (s : State) (i : ℕ) : Option State :=
  match s.tasks[i]? with
  | some (.calling kept) =>
    let s := s.dispose (droppedSenders kept)
    let s : State := { s with panicked := s.panicked ++ [kept] }
    some (s.endTask i true)
  | _ => none

section Fields
variable (s : State) (metrics : Metrics) (response : ℕ)

@[simp] theorem count_channel : (s.count metrics).channel = s.channel := rfl
@[simp] theorem count_tasks : (s.count metrics).tasks = s.tasks := rfl
@[simp] theorem count_gone : (s.count metrics).gone = s.gone := rfl
@[simp] theorem count_metrics : (s.count metrics).metrics = metrics := rfl
@[simp] theorem count_disposals : (s.count metrics).disposals = s.disposals := rfl
@[simp] theorem count_accepted : (s.count metrics).accepted = s.accepted := rfl
@[simp] theorem count_calls : (s.count metrics).calls = s.calls := rfl
@[simp] theorem count_answered : (s.count metrics).answered = s.answered := rfl
@[simp] theorem dropReceiver_channel : (s.dropReceiver response).channel = s.channel := rfl
@[simp] theorem dropReceiver_tasks : (s.dropReceiver response).tasks = s.tasks := rfl
@[simp] theorem dropReceiver_gone : (s.dropReceiver response).gone = response :: s.gone := rfl
@[simp] theorem dropReceiver_metrics : (s.dropReceiver response).metrics = s.metrics := rfl
@[simp] theorem dropReceiver_accepted : (s.dropReceiver response).accepted = s.accepted := rfl
@[simp] theorem dropReceiver_calls : (s.dropReceiver response).calls = s.calls := rfl
@[simp] theorem dropReceiver_answered : (s.dropReceiver response).answered = s.answered := rfl

end Fields
end State

inductive Event (ρ : Type*) where
  | reserve (lookup : PendingLookup)
  | push (lookup : PendingLookup)
  | revoke (lookup : PendingLookup)
  | dropReceiver (response : ℕ)
  | dropSenders
  | signalShutdown
  | count (metrics : Metrics)
  | firstTick
  | shutdownBranch
  | recvBranch
  | tickBranch
  | joinBranch (i : ℕ)
  | drainRecv
  | acquire
  | joinNext (i : ℕ)
  | finish
  | pollTask (i : ℕ)
  | completeTask (i : ℕ) (outcome : ρ)
  | panicTask (i : ℕ)

/-- What the processor, its tasks and its owner do, as opposed to the requesters. -/
def Event.own {ρ : Type*} : Event ρ → Bool
  | .reserve _ | .push _ | .revoke _ | .dropReceiver _ | .count _ => false
  | _ => true

def Event.isDropSenders {ρ : Type*} : Event ρ → Bool
  | .dropSenders => true
  | _ => false

def State.init (config : BatchConfig) : State where
  channel := .empty config.queueCapacity
  permits := config.maxInFlightBatches

def processor {ρ : Type*} (config : BatchConfig) (service : MojangService ρ) :
    Machine State (Event ρ) where
  init := .init config
  step s
    | .reserve lookup => s.reserve lookup
    | .push lookup => s.push lookup
    | .revoke lookup => s.revoke lookup
    | .dropReceiver response => some (s.dropReceiver response)
    | .dropSenders => s.dropSenders
    | .signalShutdown => some { s with shutdown := true }
    | .count metrics => some (s.count metrics)
    | .firstTick => s.firstTick
    | .shutdownBranch => s.shutdownBranch
    | .recvBranch => s.recvBranch config
    | .tickBranch => s.tickBranch
    | .joinBranch i => s.joinBranch i
    | .drainRecv => s.drainRecv config
    | .acquire => s.acquire
    | .joinNext i => s.joinNext i
    | .finish => s.finish
    | .pollTask i => s.pollTask service i
    | .completeTask i outcome => s.completeTask service i outcome
    | .panicTask i => s.panicTask i

end MojangApi.Batch
