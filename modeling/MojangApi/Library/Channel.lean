import Mathlib.Data.List.Basic

/-! # A bounded FIFO channel whose senders first obtain a slot

A send is granted a slot when the channel is open and has room, and later pushes
its item into that slot. Closing the channel refuses every further slot; slots
granted before it can still be used. The receiver gets the items in the order in
which they were pushed, and learns that there are no more once no send can
follow. The capacity bound is part of the type.

A channel library that is modelled so is assumed to meet these points, and no more:
- `reserve`: a send gets a slot only while the channel is open and has room;
- `push`, `revoke`: a slot is used once, or given back when its send is dropped;
- `recv`: items come out as they were pushed, and the end is told only when none can follow;
- `close`: what was sent before, or is sent into a slot from before, is still received;
- `dropReceiver`: what is in the queue goes away with the receiver.
-/

namespace MojangApi.Library

structure Channel (α : Type*) where
  capacity : ℕ
  queue : List α
  granted : List α
  closed : Bool
  bounded : queue.length + granted.length ≤ capacity

namespace Channel
variable {α : Type*}

def empty (capacity : ℕ) : Channel α := ⟨capacity, [], [], false, Nat.zero_le _⟩

inductive Admission (α : Type*) where
  | granted (c : Channel α)
  | full
  | closed

theorem bounded_tail (c : Channel α) {a : α} {q : List α} (hq : c.queue = a :: q) :
    q.length + c.granted.length ≤ c.capacity := by
  have := c.bounded
  rw [hq, List.length_cons] at this
  omega

theorem bounded_erase [DecidableEq α] (c : Channel α) (a : α) :
    c.queue.length + (c.granted.erase a).length ≤ c.capacity := by
  have := c.bounded
  have : (c.granted.erase a).length ≤ c.granted.length := List.length_erase_le
  omega

theorem bounded_push [DecidableEq α] (c : Channel α) {a : α} (h : a ∈ c.granted) :
    (c.queue ++ [a]).length + (c.granted.erase a).length ≤ c.capacity := by
  have := c.bounded
  have := List.length_pos_of_mem h
  rw [List.length_append, List.length_singleton, List.length_erase_of_mem h]
  omega

/-- Ask for a slot. -/
def reserve (c : Channel α) (a : α) : Admission α :=
  if c.closed then .closed
  else if h : c.queue.length + c.granted.length < c.capacity then
    .granted { c with granted := c.granted ++ [a], bounded := by simpa using by omega }
  else .full

def close (c : Channel α) : Channel α := { c with closed := true }

/-- The receiver is dropped, and with it what is in the queue. -/
def dropReceiver (c : Channel α) : Channel α where
  capacity := c.capacity
  queue := []
  granted := c.granted
  closed := true
  bounded := Nat.le_trans (Nat.add_le_add_right (Nat.zero_le _) _) c.bounded

inductive Received (α : Type*) where
  | item (a : α) (c : Channel α)
  | finished
  | pending

def Received.isPending : Received α → Bool
  | .pending => true
  | _ => false

/-- The receiver is done when the queue is empty and no sender can push any more. -/
def recv (c : Channel α) (sendersGone : Bool) : Received α :=
  match hq : c.queue with
  | a :: q => .item a { c with queue := q, bounded := c.bounded_tail hq }
  | [] => if (c.closed || sendersGone) && c.granted.isEmpty then .finished else .pending

variable [DecidableEq α]

/-- Use a granted slot. -/
def push (c : Channel α) (a : α) : Option (Channel α) :=
  if h : a ∈ c.granted then
    some { c with
      queue := c.queue ++ [a], granted := c.granted.erase a, bounded := c.bounded_push h }
  else none

/-- Give a granted slot back. -/
def revoke (c : Channel α) (a : α) : Option (Channel α) :=
  if a ∈ c.granted then
    some { c with granted := c.granted.erase a, bounded := c.bounded_erase a }
  else none

omit [DecidableEq α] in
theorem reserve_granted {c d : Channel α} {a : α} (h : c.reserve a = .granted d) :
    c.closed = false ∧ d.queue = c.queue ∧ d.granted = c.granted ++ [a] ∧ d.closed = c.closed ∧
      d.capacity = c.capacity := by
  unfold reserve at h
  split at h
  · cases h
  · rename_i hopen
    split at h
    · cases h
      exact ⟨by simpa using hopen, rfl, rfl, rfl, rfl⟩
    · cases h

omit [DecidableEq α] in
/-- A send that asks for its slot after the close fails. -/
theorem reserve_closed {c : Channel α} (h : c.closed = true) (a : α) : c.reserve a = .closed := by
  simp [reserve, h]

theorem push_eq_some {c d : Channel α} {a : α} (h : c.push a = some d) :
    a ∈ c.granted ∧ d.queue = c.queue ++ [a] ∧ d.granted = c.granted.erase a ∧
      d.closed = c.closed ∧ d.capacity = c.capacity := by
  unfold push at h
  split at h
  · rename_i hmem
    cases h
    exact ⟨hmem, rfl, rfl, rfl, rfl⟩
  · cases h

theorem revoke_eq_some {c d : Channel α} {a : α} (h : c.revoke a = some d) :
    a ∈ c.granted ∧ d.queue = c.queue ∧ d.granted = c.granted.erase a ∧ d.closed = c.closed ∧
      d.capacity = c.capacity := by
  unfold revoke at h
  split at h
  · rename_i hmem
    cases h
    exact ⟨hmem, rfl, rfl, rfl, rfl⟩
  · cases h

omit [DecidableEq α] in
theorem recv_item {c d : Channel α} {gone : Bool} {a : α} (h : c.recv gone = .item a d) :
    c.queue = a :: d.queue ∧ d.granted = c.granted ∧ d.closed = c.closed ∧
      d.capacity = c.capacity := by
  unfold recv at h
  split at h
  · rename_i hq
    cases h
    exact ⟨hq, rfl, rfl, rfl⟩
  · split at h <;> cases h

omit [DecidableEq α] in
theorem recv_finished {c : Channel α} {gone : Bool} (h : c.recv gone = .finished) :
    c.queue = [] ∧ c.granted = [] ∧ (c.closed = true ∨ gone = true) := by
  unfold recv at h
  split at h
  · cases h
  · rename_i hq
    split at h
    · rename_i hdone
      simp only [Bool.and_eq_true, Bool.or_eq_true, List.isEmpty_iff] at hdone
      exact ⟨hq, hdone.2, hdone.1⟩
    · cases h

omit [DecidableEq α] in
/-- The receiver has to wait only for a slot that is still to be used, or for a sender. -/
theorem recv_pending {c : Channel α} {gone : Bool} (h : c.recv gone = .pending) :
    c.queue = [] ∧ (c.granted ≠ [] ∨ c.closed = false ∧ gone = false) := by
  unfold recv at h
  split at h
  · cases h
  · rename_i hq
    split at h
    · cases h
    · rename_i hwait
      refine ⟨hq, ?_⟩
      by_cases hgranted : c.granted = []
      · simp only [hgranted, List.isEmpty_nil, Bool.and_true, Bool.or_eq_true, not_or,
          Bool.not_eq_true] at hwait
        exact .inr hwait
      · exact .inl hgranted

end Channel
end MojangApi.Library
