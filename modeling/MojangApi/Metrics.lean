import MojangApi.Types
import Mathlib.Tactic.Common

/-! # The twelve counters

`fetch_add` wraps at `2 ^ 64`. A snapshot reads the counters one after the other
while other tasks go on counting, so the model reads them singly, in the order
of the fields.
-/

namespace MojangApi

inductive Counter where
  | uuidRequests
  | skinRequests
  | uuidCacheHits
  | uuidCacheMisses
  | skinCacheHits
  | skinCacheMisses
  | batchesProcessed
  | usernamesBatched
  | bytesSentToMojang
  | bytesReceivedFromMojang
  | mojangRequests
  | mojangErrors
  deriving DecidableEq, Repr

/-- The counters in the order in which `snapshot` loads them. -/
def Counter.all : List Counter :=
  [.uuidRequests, .skinRequests, .uuidCacheHits, .uuidCacheMisses, .skinCacheHits,
    .skinCacheMisses, .batchesProcessed, .usernamesBatched, .bytesSentToMojang,
    .bytesReceivedFromMojang, .mojangRequests, .mojangErrors]

theorem Counter.mem_all (c : Counter) : c ∈ Counter.all := by
  cases c <;> decide

def fetchAdd (n k : ℕ) : ℕ := (n + k) % 2 ^ 64

structure Metrics where
  uuidRequests : ℕ := 0
  skinRequests : ℕ := 0
  uuidCacheHits : ℕ := 0
  uuidCacheMisses : ℕ := 0
  skinCacheHits : ℕ := 0
  skinCacheMisses : ℕ := 0
  batchesProcessed : ℕ := 0
  usernamesBatched : ℕ := 0
  bytesSentToMojang : ℕ := 0
  bytesReceivedFromMojang : ℕ := 0
  mojangRequests : ℕ := 0
  mojangErrors : ℕ := 0
  startedAt : ℕ := 0
  deriving DecidableEq, Repr

namespace Metrics

def counter (m : Metrics) : Counter → ℕ
  | .uuidRequests => m.uuidRequests
  | .skinRequests => m.skinRequests
  | .uuidCacheHits => m.uuidCacheHits
  | .uuidCacheMisses => m.uuidCacheMisses
  | .skinCacheHits => m.skinCacheHits
  | .skinCacheMisses => m.skinCacheMisses
  | .batchesProcessed => m.batchesProcessed
  | .usernamesBatched => m.usernamesBatched
  | .bytesSentToMojang => m.bytesSentToMojang
  | .bytesReceivedFromMojang => m.bytesReceivedFromMojang
  | .mojangRequests => m.mojangRequests
  | .mojangErrors => m.mojangErrors

def add (m : Metrics) (c : Counter) (k : ℕ) : Metrics :=
  match c with
  | .uuidRequests => { m with uuidRequests := fetchAdd m.uuidRequests k }
  | .skinRequests => { m with skinRequests := fetchAdd m.skinRequests k }
  | .uuidCacheHits => { m with uuidCacheHits := fetchAdd m.uuidCacheHits k }
  | .uuidCacheMisses => { m with uuidCacheMisses := fetchAdd m.uuidCacheMisses k }
  | .skinCacheHits => { m with skinCacheHits := fetchAdd m.skinCacheHits k }
  | .skinCacheMisses => { m with skinCacheMisses := fetchAdd m.skinCacheMisses k }
  | .batchesProcessed => { m with batchesProcessed := fetchAdd m.batchesProcessed k }
  | .usernamesBatched => { m with usernamesBatched := fetchAdd m.usernamesBatched k }
  | .bytesSentToMojang => { m with bytesSentToMojang := fetchAdd m.bytesSentToMojang k }
  | .bytesReceivedFromMojang =>
    { m with bytesReceivedFromMojang := fetchAdd m.bytesReceivedFromMojang k }
  | .mojangRequests => { m with mojangRequests := fetchAdd m.mojangRequests k }
  | .mojangErrors => { m with mojangErrors := fetchAdd m.mojangErrors k }

def incrementUuidRequests (m : Metrics) : Metrics := m.add .uuidRequests 1
def incrementSkinRequests (m : Metrics) : Metrics := m.add .skinRequests 1
def incrementUuidCacheHits (m : Metrics) : Metrics := m.add .uuidCacheHits 1
def incrementUuidCacheMisses (m : Metrics) : Metrics := m.add .uuidCacheMisses 1
def incrementSkinCacheHits (m : Metrics) : Metrics := m.add .skinCacheHits 1
def incrementSkinCacheMisses (m : Metrics) : Metrics := m.add .skinCacheMisses 1

def recordBatch (m : Metrics) (usernames : ℕ) : Metrics :=
  (m.add .batchesProcessed 1).add .usernamesBatched usernames

def recordMojangRequest (m : Metrics) (sentBytes : ℕ) : Metrics :=
  (m.add .mojangRequests 1).add .bytesSentToMojang sentBytes

def recordMojangResponse (m : Metrics) (receivedBytes : ℕ) : Metrics :=
  m.add .bytesReceivedFromMojang receivedBytes

def incrementMojangErrors (m : Metrics) : Metrics := m.add .mojangErrors 1

@[simp] theorem counter_add (m : Metrics) (c d : Counter) (k : ℕ) :
    (m.add c k).counter d = if c = d then fetchAdd (m.counter d) k else m.counter d := by
  cases c <;> cases d <;> rfl

end Metrics

theorem fetchAdd_of_lt {n k : ℕ} (h : n + k < 2 ^ 64) : fetchAdd n k = n + k :=
  Nat.mod_eq_of_lt h

theorem fetchAdd_mod (n k : ℕ) : fetchAdd (n % 2 ^ 64) k = (n + k) % 2 ^ 64 :=
  Nat.mod_add_mod n (2 ^ 64) k

theorem fetchAdd_fetchAdd (n k l : ℕ) : fetchAdd (fetchAdd n k) l = fetchAdd n (k + l) := by
  change fetchAdd ((n + k) % 2 ^ 64) l = _
  rw [fetchAdd_mod, Nat.add_assoc]
  rfl

/-- What a result adds to the errors. -/
def failures {ε α : Type*} : Except ε α → ℕ
  | .ok _ => 0
  | .error _ => 1

theorem failures_le {ε α : Type*} (result : Except ε α) : failures result ≤ 1 := by
  cases result with
  | ok => exact Nat.zero_le _
  | error => exact Nat.le_refl _

def Counter.countsBytes : Counter → Bool
  | .bytesSentToMojang | .bytesReceivedFromMojang => true
  | _ => false

namespace Metrics
variable {m : Metrics} {total : Counter → ℕ}

/-- The counters, apart from those of bytes, show the totals as far as they fit. -/
def Follows (m : Metrics) (total : Counter → ℕ) : Prop :=
  ∀ c : Counter, c.countsBytes = false → m.counter c = total c % 2 ^ 64

theorem Follows.congr {total' : Counter → ℕ} (h : m.Follows total) (heq : ∀ c, total' c = total c) :
    m.Follows total' := by
  intro c hc
  rw [heq]
  exact h c hc

theorem Follows.add (h : m.Follows total) (c : Counter) (k : ℕ) :
    (m.add c k).Follows fun d => total d + if c = d then k else 0 := by
  intro d hd
  rw [counter_add]
  by_cases hcd : c = d
  · simp only [if_pos hcd, h d hd]
    exact fetchAdd_mod _ _
  · simp only [if_neg hcd, Nat.add_zero]
    exact h d hd

theorem Follows.addIf (h : m.Follows total) (b : Bool) (c : Counter) :
    (if b then m.add c 1 else m).Follows fun d =>
      total d + if c = d then (if b then 1 else 0) else 0 := by
  cases b with
  | true => exact h.add c 1
  | false => exact h.congr fun d => by simp

/-- Each counter has been left alone, or raised by its amount. -/
def Grows (m m' : Metrics) (amount : Counter → ℕ) : Prop :=
  ∀ c, m'.counter c = m.counter c ∧ amount c = 0 ∨ m'.counter c = fetchAdd (m.counter c) (amount c)

theorem grows_refl (m : Metrics) : m.Grows m fun _ => 0 := fun _ => .inl ⟨rfl, rfl⟩

theorem grows_add (m : Metrics) (c : Counter) (k : ℕ) :
    m.Grows (m.add c k) fun d => if c = d then k else 0 := by
  intro d
  by_cases hd : c = d
  · exact .inr (by simp [hd])
  · exact .inl (by simp [hd])

theorem Grows.congr {m' : Metrics} {amount amount' : Counter → ℕ} (h : m.Grows m' amount)
    (heq : ∀ c, amount' c = amount c) : m.Grows m' amount' := by
  intro c
  rw [heq]
  exact h c

theorem Grows.trans {m' m'' : Metrics} {amount amount' : Counter → ℕ} (h : m.Grows m' amount)
    (h' : m'.Grows m'' amount') : m.Grows m'' fun c => amount c + amount' c := by
  intro c
  dsimp only
  rcases h c with ⟨hc, hzero⟩ | hc <;> rcases h' c with ⟨hc', hzero'⟩ | hc'
  · exact .inl ⟨hc'.trans hc, by simp [hzero, hzero']⟩
  · exact .inr (by rw [hc', hc, hzero, Nat.zero_add])
  · exact .inr (by rw [hc', hc, hzero', Nat.add_zero])
  · exact .inr (by rw [hc', hc, fetchAdd_fetchAdd])

/-- What grows by these amounts goes on to show the totals. -/
theorem Grows.follows {m' : Metrics} {amount amount' : Counter → ℕ} (h : m.Grows m' amount)
    (hm : m.Follows total) (heq : ∀ c, c.countsBytes = false → amount' c = amount c) :
    m'.Follows fun c => total c + amount' c := by
  intro c hc
  dsimp only
  rw [heq c hc]
  rcases h c with ⟨hkept, hzero⟩ | hadded
  · rw [hkept, hm c hc, hzero, Nat.add_zero]
  · rw [hadded, hm c hc, fetchAdd_mod]

theorem follows_default : Follows {} fun _ => 0 := by
  intro c _
  cases c <;> rfl

end Metrics

structure MetricsSnapshot where
  uuidRequests : ℕ := 0
  skinRequests : ℕ := 0
  uuidCacheHits : ℕ := 0
  uuidCacheMisses : ℕ := 0
  skinCacheHits : ℕ := 0
  skinCacheMisses : ℕ := 0
  batchesProcessed : ℕ := 0
  usernamesBatched : ℕ := 0
  bytesSentToMojang : ℕ := 0
  bytesReceivedFromMojang : ℕ := 0
  mojangRequests : ℕ := 0
  mojangErrors : ℕ := 0
  uptime : ℕ := 0
  reportPeriod : ℕ := 0
  deriving DecidableEq, Repr

namespace MetricsSnapshot

def counter (s : MetricsSnapshot) : Counter → ℕ
  | .uuidRequests => s.uuidRequests
  | .skinRequests => s.skinRequests
  | .uuidCacheHits => s.uuidCacheHits
  | .uuidCacheMisses => s.uuidCacheMisses
  | .skinCacheHits => s.skinCacheHits
  | .skinCacheMisses => s.skinCacheMisses
  | .batchesProcessed => s.batchesProcessed
  | .usernamesBatched => s.usernamesBatched
  | .bytesSentToMojang => s.bytesSentToMojang
  | .bytesReceivedFromMojang => s.bytesReceivedFromMojang
  | .mojangRequests => s.mojangRequests
  | .mojangErrors => s.mojangErrors

/-- A snapshot before its first load: the clock is read first. -/
def start (m : Metrics) (now : ℕ) : MetricsSnapshot :=
  { uptime := saturatingDurationSince now m.startedAt }

/-- One of the twelve loads of a snapshot. -/
def load (s : MetricsSnapshot) (m : Metrics) : Counter → MetricsSnapshot
  | .uuidRequests => { s with uuidRequests := m.uuidRequests }
  | .skinRequests => { s with skinRequests := m.skinRequests }
  | .uuidCacheHits => { s with uuidCacheHits := m.uuidCacheHits }
  | .uuidCacheMisses => { s with uuidCacheMisses := m.uuidCacheMisses }
  | .skinCacheHits => { s with skinCacheHits := m.skinCacheHits }
  | .skinCacheMisses => { s with skinCacheMisses := m.skinCacheMisses }
  | .batchesProcessed => { s with batchesProcessed := m.batchesProcessed }
  | .usernamesBatched => { s with usernamesBatched := m.usernamesBatched }
  | .bytesSentToMojang => { s with bytesSentToMojang := m.bytesSentToMojang }
  | .bytesReceivedFromMojang => { s with bytesReceivedFromMojang := m.bytesReceivedFromMojang }
  | .mojangRequests => { s with mojangRequests := m.mojangRequests }
  | .mojangErrors => { s with mojangErrors := m.mojangErrors }

/-- Each difference saturates at zero. -/
def since (s previous : MetricsSnapshot) (reportPeriod : ℕ) : MetricsSnapshot where
  uuidRequests := s.uuidRequests - previous.uuidRequests
  skinRequests := s.skinRequests - previous.skinRequests
  uuidCacheHits := s.uuidCacheHits - previous.uuidCacheHits
  uuidCacheMisses := s.uuidCacheMisses - previous.uuidCacheMisses
  skinCacheHits := s.skinCacheHits - previous.skinCacheHits
  skinCacheMisses := s.skinCacheMisses - previous.skinCacheMisses
  batchesProcessed := s.batchesProcessed - previous.batchesProcessed
  usernamesBatched := s.usernamesBatched - previous.usernamesBatched
  bytesSentToMojang := s.bytesSentToMojang - previous.bytesSentToMojang
  bytesReceivedFromMojang := s.bytesReceivedFromMojang - previous.bytesReceivedFromMojang
  mojangRequests := s.mojangRequests - previous.mojangRequests
  mojangErrors := s.mojangErrors - previous.mojangErrors
  uptime := s.uptime
  reportPeriod := reportPeriod

@[simp] theorem counter_load (s : MetricsSnapshot) (m : Metrics) (c d : Counter) :
    (s.load m c).counter d = if c = d then m.counter d else s.counter d := by
  cases c <;> cases d <;> rfl

@[simp] theorem counter_since (s previous : MetricsSnapshot) (period : ℕ) (c : Counter) :
    (s.since previous period).counter c = s.counter c - previous.counter c := by
  cases c <;> rfl

@[simp] theorem since_reportPeriod (s previous : MetricsSnapshot) (period : ℕ) :
    (s.since previous period).reportPeriod = period := rfl

end MetricsSnapshot
end MojangApi
