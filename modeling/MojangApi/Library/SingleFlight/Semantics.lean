import MojangApi.Library.Machine
import MojangApi.Library.Lists
import Mathlib.Logic.Function.Basic
import Mathlib.Order.Basic
import Mathlib.Tactic.Common

/-! # A cache whose concurrent loads of one key are coalesced

A caller that finds no live entry either becomes the loader of its key or waits
for the load already running. A load ends with a result, which its owner and its
waiters receive and which is stored when it is a value, or it is abandoned when
its owner is dropped, and then the waiters start over. Loads and callers are
numbered in the order in which they begin. What a load does is left open.

A cache library that is modelled so is assumed to meet these points, and no more:
- `live`: an entry is read only before its time to live has passed since it was stored;
- `enter`: of the callers that find no entry of a key, one at a time loads, and the others wait;
- `store`: a value is stored when its load ends, an error is not;
- `finish`, `wake`: a result goes to the owner of its load and to those who waited for it;
- `drop`: with its owner a load goes away, and then a waiter loads;
- `evict`: any entry may go at any time.
-/

namespace MojangApi.Library.SingleFlight
variable {κ ν ε : Type*}

inductive LoadState (ν ε : Type*) where
  | running
  | finished (result : Except ε ν) (time : ℕ)
  | abandoned

def LoadState.isRunning : LoadState ν ε → Bool
  | .running => true
  | _ => false

structure Load (κ ν ε : Type*) where
  key : κ
  owner : ℕ
  state : LoadState ν ε

/-- The load a result comes from, and whether it was read from the store, handed
to its own loader or shared with a waiter. -/
inductive Origin where
  | cached (load storedAt readAt : ℕ)
  | loaded (load : ℕ)
  | shared (load : ℕ)

def Origin.load : Origin → ℕ
  | .cached i _ _ => i
  | .loaded i => i
  | .shared i => i

/-- A result is fresh for the caller whose own loader produced it. -/
def Origin.isFresh : Origin → Bool
  | .loaded _ => true
  | _ => false

inductive Phase (ν ε : Type*) where
  | entering
  | waiting (load : ℕ)
  | loading (load : ℕ)
  | returned (result : Except ε ν) (origin : Origin)
  | dropped

/-- `loads` counts how often the caller's own loader was started, `reads` how
often it was handed a value that another loader produced. -/
structure Caller (κ ν ε : Type*) where
  key : κ
  phase : Phase ν ε := .entering
  loads : ℕ := 0
  reads : ℕ := 0

structure Entry (ν : Type*) where
  value : ν
  storedAt : ℕ
  load : ℕ

structure State (κ ν ε : Type*) where
  now : ℕ := 0
  entries : κ → Option (Entry ν) := fun _ => none
  loads : List (Load κ ν ε) := []
  callers : List (Caller κ ν ε) := []

namespace State

/-- The entry of a key, unless its time to live has passed. -/
def live (ttl : ν → ℕ) (s : State κ ν ε) (k : κ) : Option (Entry ν) :=
  (s.entries k).filter fun e => s.now < e.storedAt + ttl e.value

def running [DecidableEq κ] (s : State κ ν ε) (k : κ) : Option ℕ :=
  s.loads.findIdx? fun l => l.key = k && l.state.isRunning

def setPhase (s : State κ ν ε) (r : ℕ) (c : Caller κ ν ε) (p : Phase ν ε) : State κ ν ε :=
  { s with callers := s.callers.set r { c with phase := p } }

def setLoad (s : State κ ν ε) (i : ℕ) (l : Load κ ν ε) : State κ ν ε :=
  { s with loads := s.loads.set i l }

def addLoad (s : State κ ν ε) (l : Load κ ν ε) : State κ ν ε := { s with loads := s.loads ++ [l] }

def call (s : State κ ν ε) (k : κ) : State κ ν ε := { s with callers := s.callers ++ [{ key := k }] }

/-- Read the entry, join the running load, or start one. -/
def enter [DecidableEq κ] (ttl : ν → ℕ) (s : State κ ν ε) (r : ℕ) : Option (State κ ν ε) :=
  match s.callers[r]? with
  | some c =>
    match c.phase with
    | .entering =>
      match s.live ttl c.key with
      | some e => some (s.setPhase r { c with reads := c.reads + 1 }
          (.returned (.ok e.value) (.cached e.load e.storedAt s.now)))
      | none =>
        match s.running c.key with
        | some i => some (s.setPhase r c (.waiting i))
        | none => some ((s.addLoad ⟨c.key, r, .running⟩).setPhase r
            { c with loads := c.loads + 1 } (.loading s.loads.length))
    | _ => none
  | none => none

/-- Only a value is stored; an error leaves the entries as they are. -/
def store [DecidableEq κ] (s : State κ ν ε) (k : κ) (i : ℕ) : Except ε ν → State κ ν ε
  | .ok v => { s with entries := Function.update s.entries k (some ⟨v, s.now, i⟩) }
  | .error _ => s

def finish [DecidableEq κ] (s : State κ ν ε) (i : ℕ) (result : Except ε ν) :
    Option (State κ ν ε) :=
  match s.loads[i]? with
  | some ⟨k, r, .running⟩ =>
    match s.callers[r]? with
    | some c => some (((s.setLoad i ⟨k, r, .finished result s.now⟩).store k i
        result).setPhase r c (.returned result (.loaded i)))
    | none => none
  | _ => none

/-- A waiter sees the load it waited for end. -/
def wake (s : State κ ν ε) (r : ℕ) : Option (State κ ν ε) :=
  match s.callers[r]? with
  | some c =>
    match c.phase with
    | .waiting i =>
      match s.loads[i]? with
      | some ⟨_, _, .finished (.ok v) _⟩ =>
        some (s.setPhase r { c with reads := c.reads + 1 } (.returned (.ok v) (.shared i)))
      | some ⟨_, _, .finished (.error e) _⟩ => some (s.setPhase r c (.returned (.error e) (.shared i)))
      | some ⟨_, _, .abandoned⟩ => some (s.setPhase r c .entering)
      | _ => none
    | _ => none
  | none => none

def drop (s : State κ ν ε) (r : ℕ) : Option (State κ ν ε) :=
  match s.callers[r]? with
  | some c =>
    match c.phase with
    | .entering => some (s.setPhase r c .dropped)
    | .waiting _ => some (s.setPhase r c .dropped)
    | .loading i =>
      some ((s.setLoad i ⟨c.key, r, .abandoned⟩).setPhase r c .dropped)
    | _ => none
  | none => none

def elapse (s : State κ ν ε) (d : ℕ) : State κ ν ε := { s with now := s.now + d }

/-- Whether a caller was handed a value that it did not load. -/
def servedFromCache (s : State κ ν ε) (r : ℕ) : Bool :=
  match (s.callers[r]?).map Caller.phase with
  | some (.returned (.ok _) origin) => !origin.isFresh
  | _ => false

/-- Any entry may be evicted at any time. -/
def evict [DecidableEq κ] (s : State κ ν ε) (k : κ) : State κ ν ε :=
  { s with entries := Function.update s.entries k none }

section Fields
variable (s : State κ ν ε) (r i : ℕ) (c : Caller κ ν ε) (p : Phase ν ε) (l : Load κ ν ε) (k : κ)

@[simp] theorem setPhase_loads : (s.setPhase r c p).loads = s.loads := rfl
@[simp] theorem setPhase_entries : (s.setPhase r c p).entries = s.entries := rfl
@[simp] theorem setPhase_now : (s.setPhase r c p).now = s.now := rfl
@[simp] theorem setPhase_callers :
    (s.setPhase r c p).callers = s.callers.set r { c with phase := p } := rfl
@[simp] theorem setLoad_loads : (s.setLoad i l).loads = s.loads.set i l := rfl
@[simp] theorem setLoad_entries : (s.setLoad i l).entries = s.entries := rfl
@[simp] theorem setLoad_now : (s.setLoad i l).now = s.now := rfl
@[simp] theorem setLoad_callers : (s.setLoad i l).callers = s.callers := rfl
@[simp] theorem addLoad_loads : (s.addLoad l).loads = s.loads ++ [l] := rfl
@[simp] theorem addLoad_entries : (s.addLoad l).entries = s.entries := rfl
@[simp] theorem addLoad_now : (s.addLoad l).now = s.now := rfl
@[simp] theorem addLoad_callers : (s.addLoad l).callers = s.callers := rfl

variable [DecidableEq κ] (result : Except ε ν)

@[simp] theorem store_loads : (s.store k i result).loads = s.loads := by cases result <;> rfl
@[simp] theorem store_now : (s.store k i result).now = s.now := by cases result <;> rfl
@[simp] theorem store_callers : (s.store k i result).callers = s.callers := by cases result <;> rfl

theorem store_entries_of_ne {k k' : κ} (h : k' ≠ k) :
    (s.store k i result).entries k' = s.entries k' := by
  cases result <;> simp [store, h]

end Fields
end State

inductive Event (κ ν ε : Type*) where
  | call (k : κ)
  | enter (r : ℕ)
  | finish (i : ℕ) (result : Except ε ν)
  | wake (r : ℕ)
  | drop (r : ℕ)
  | elapse (d : ℕ)
  | evict (k : κ)

def machine [DecidableEq κ] (ttl : ν → ℕ) : Machine (State κ ν ε) (Event κ ν ε) where
  init := {}
  step s
    | .call k => some (s.call k)
    | .enter r => s.enter ttl r
    | .finish i result => s.finish i result
    | .wake r => s.wake r
    | .drop r => s.drop r
    | .elapse d => some (s.elapse d)
    | .evict k => some (s.evict k)

section Steps
variable {ttl : ν → ℕ} {s t : State κ ν ε} {k : κ} {e : Entry ν} {r i : ℕ}

theorem live_eq_some : s.live ttl k = some e ↔
    s.entries k = some e ∧ s.now < e.storedAt + ttl e.value := by
  simp [State.live]

theorem live_eq_none : s.live ttl k = none ↔
    ∀ e, s.entries k = some e → e.storedAt + ttl e.value ≤ s.now := by
  simp [State.live]

theorem running_eq_some [DecidableEq κ] (h : s.running k = some i) :
    ∃ l, s.loads[i]? = some l ∧ l.key = k ∧ l.state = .running := by
  obtain ⟨hi, hp, -⟩ := List.findIdx?_eq_some_iff_getElem.mp h
  refine ⟨s.loads[i], List.getElem?_eq_getElem hi, by simp_all, ?_⟩
  cases hs : s.loads[i].state <;> simp_all [LoadState.isRunning]

theorem running_eq_none [DecidableEq κ] (h : s.running k = none) {l : Load κ ν ε}
    (hl : s.loads[i]? = some l)
    (hr : l.state = .running) : l.key ≠ k := by
  intro hk
  have hmem : l ∈ s.loads := List.mem_of_getElem? hl
  simpa [hk, hr, LoadState.isRunning] using List.findIdx?_eq_none_iff.mp h l hmem

/-- The three ways in: a live entry, a running load, a load of one's own. -/
theorem enter_cases [DecidableEq κ] (h : s.enter ttl r = some t) :
    ∃ c, s.callers[r]? = some c ∧ c.phase = .entering ∧
      ((∃ e, s.live ttl c.key = some e ∧ t = s.setPhase r { c with reads := c.reads + 1 }
          (.returned (.ok e.value) (.cached e.load e.storedAt s.now))) ∨
        (∃ i, s.running c.key = some i ∧ t = s.setPhase r c (.waiting i)) ∨
        (s.live ttl c.key = none ∧ s.running c.key = none ∧
          t = (s.addLoad ⟨c.key, r, .running⟩).setPhase r
            { c with loads := c.loads + 1 } (.loading s.loads.length))) := by
  unfold State.enter at h
  split at h <;> try contradiction
  rename_i c hc
  split at h <;> try contradiction
  rename_i hp
  refine ⟨c, hc, hp, ?_⟩
  split at h
  · rename_i e he
    exact .inl ⟨e, he, (Option.some.inj h).symm⟩
  · rename_i hn
    split at h
    · rename_i i hi
      exact .inr (.inl ⟨i, hi, (Option.some.inj h).symm⟩)
    · rename_i hi
      exact .inr (.inr ⟨hn, hi, (Option.some.inj h).symm⟩)

theorem finish_cases [DecidableEq κ] {result : Except ε ν} (h : s.finish i result = some t) :
    ∃ k r c, s.loads[i]? = some ⟨k, r, .running⟩ ∧ s.callers[r]? = some c ∧
      t = ((s.setLoad i ⟨k, r, .finished result s.now⟩).store k i result).setPhase r c
        (.returned result (.loaded i)) := by
  unfold State.finish at h
  split at h <;> try contradiction
  rename_i k r hl
  split at h <;> try contradiction
  rename_i c hc
  exact ⟨k, r, c, hl, hc, (Option.some.inj h).symm⟩

theorem wake_cases (h : s.wake r = some t) :
    ∃ c i l, s.callers[r]? = some c ∧ c.phase = .waiting i ∧ s.loads[i]? = some l ∧
      ((∃ v n, l.state = .finished (.ok v) n ∧ t = s.setPhase r { c with reads := c.reads + 1 }
          (.returned (.ok v) (.shared i))) ∨
        (∃ e n, l.state = .finished (.error e) n ∧
          t = s.setPhase r c (.returned (.error e) (.shared i))) ∨
        (l.state = .abandoned ∧ t = s.setPhase r c .entering)) := by
  unfold State.wake at h
  split at h <;> try contradiction
  rename_i c hc
  split at h <;> try contradiction
  rename_i i hp
  split at h <;> try contradiction
  · rename_i k q v n hl
    exact ⟨c, i, _, hc, hp, hl, .inl ⟨v, n, rfl, (Option.some.inj h).symm⟩⟩
  · rename_i k q e n hl
    exact ⟨c, i, _, hc, hp, hl, .inr (.inl ⟨e, n, rfl, (Option.some.inj h).symm⟩)⟩
  · rename_i k q hl
    exact ⟨c, i, _, hc, hp, hl, .inr (.inr ⟨rfl, (Option.some.inj h).symm⟩)⟩

/-- Only the owner of a load takes it down. -/
theorem drop_cases (h : s.drop r = some t) :
    ∃ c, s.callers[r]? = some c ∧
      (((c.phase = .entering ∨ ∃ i, c.phase = .waiting i) ∧ t = s.setPhase r c .dropped) ∨
        (∃ i, c.phase = .loading i ∧
          t = (s.setLoad i ⟨c.key, r, .abandoned⟩).setPhase r c .dropped)) := by
  unfold State.drop at h
  split at h <;> try contradiction
  rename_i c hc
  refine ⟨c, hc, ?_⟩
  split at h <;> try contradiction
  · rename_i hp
    exact .inl ⟨.inl hp, (Option.some.inj h).symm⟩
  · rename_i i hp
    exact .inl ⟨.inr ⟨i, hp⟩, (Option.some.inj h).symm⟩
  · rename_i i hp
    exact .inr ⟨i, hp, (Option.some.inj h).symm⟩

theorem keys_setPhase {c c' : Caller κ ν ε} {p : Phase ν ε} (hr : s.callers[r]? = some c)
    (hc : c'.key = c.key) :
    (s.setPhase r c' p).callers.map Caller.key = s.callers.map Caller.key := by
  apply List.ext_getElem?
  intro i
  rw [State.setPhase_callers, List.getElem?_map, List.getElem?_map, getElem?_set_some hr]
  by_cases hi : r = i
  · subst hi
    simp [hr, hc]
  · simp [hi]

/-- A caller keeps its key as it moves on. -/
theorem enter_keys [DecidableEq κ] (h : s.enter ttl r = some t) :
    t.callers.map Caller.key = s.callers.map Caller.key := by
  obtain ⟨c, hr, -, ⟨e, -, rfl⟩ | ⟨i, -, rfl⟩ | ⟨-, -, rfl⟩⟩ := enter_cases h
  · exact keys_setPhase hr rfl
  · exact keys_setPhase hr rfl
  · exact keys_setPhase (s := s.addLoad _) hr rfl

theorem finish_keys [DecidableEq κ] {result : Except ε ν} (h : s.finish i result = some t) :
    t.callers.map Caller.key = s.callers.map Caller.key := by
  obtain ⟨k, r, c, -, hr, rfl⟩ := finish_cases h
  rw [keys_setPhase (c := c) (by simpa using hr) rfl]
  simp

theorem wake_keys (h : s.wake r = some t) :
    t.callers.map Caller.key = s.callers.map Caller.key := by
  obtain ⟨c, i, l, hr, -, -, ⟨v, n, -, rfl⟩ | ⟨e, n, -, rfl⟩ | ⟨-, rfl⟩⟩ := wake_cases h <;>
    exact keys_setPhase hr rfl

theorem drop_keys (h : s.drop r = some t) :
    t.callers.map Caller.key = s.callers.map Caller.key := by
  obtain ⟨c, hr, ⟨-, rfl⟩ | ⟨i, -, rfl⟩⟩ := drop_cases h
  · exact keys_setPhase hr rfl
  · exact keys_setPhase (s := s.setLoad _ _) hr rfl

theorem wake_loads (h : s.wake r = some t) : t.loads = s.loads := by
  obtain ⟨c, i, l, -, -, -, ⟨v, n, -, rfl⟩ | ⟨e, n, -, rfl⟩ | ⟨-, rfl⟩⟩ := wake_cases h <;> rfl

theorem finish_loads [DecidableEq κ] {result : Except ε ν} (h : s.finish i result = some t) :
    ∃ k r, s.loads[i]? = some ⟨k, r, .running⟩ ∧
      t.loads = s.loads.set i ⟨k, r, .finished result s.now⟩ := by
  obtain ⟨k, r, c, hl, -, rfl⟩ := finish_cases h
  exact ⟨k, r, hl, by simp⟩

end Steps
end MojangApi.Library.SingleFlight
