import MojangApi.RateLimit.Limiter
import MojangApi.Library.FixedWindow
import Mathlib.Data.List.Induction

/-! # Sharding and cleanup are invisible

A simulation between the sharded limiter and one never-cleaned fixed window per
address. In it a missing record and a record whose window is over stand for the
same thing, which is what makes both the cleanup and the two ways of restarting
a window invisible.
-/

namespace MojangApi.RateLimit
open Library

variable (hash : IpAddr → ℕ)

def ClientWindow.toWindow (c : ClientWindow) : FixedWindow.Window := ⟨c.startedAt, c.requests⟩

def Decision.toVerdict (d : Decision) : FixedWindow.Verdict := ⟨d.allowed, d.remaining, d.resetAfter⟩

/-- The times of an address's own calls. -/
def ownCalls (key : IpAddr) (calls : List (IpAddr × ℕ)) : List ℕ :=
  (calls.filter fun call => call.1 = key).map Prod.snd

theorem ownCalls_snoc_self (key : IpAddr) (calls : List (IpAddr × ℕ)) (now : ℕ) :
    ownCalls key (calls ++ [(key, now)]) = ownCalls key calls ++ [now] := by
  simp [ownCalls]

theorem ownCalls_snoc_ne {key key' : IpAddr} (h : key ≠ key') (calls : List (IpAddr × ℕ))
    (now : ℕ) : ownCalls key' (calls ++ [(key, now)]) = ownCalls key' calls := by
  simp [ownCalls, h]

theorem ownCalls_append (key : IpAddr) (l l' : List (IpAddr × ℕ)) :
    ownCalls key (l ++ l') = ownCalls key l ++ ownCalls key l' := by
  simp [ownCalls]

/-- The limiter's record and the reference window cannot be told apart from `now` on. -/
def Agree (window : ℕ) (now : ℕ) (record : Option ClientWindow)
    (reference : Option FixedWindow.Window) : Prop :=
  record.map ClientWindow.toWindow = reference ∨
    record = none ∧ ∃ w, reference = some w ∧ w.start + window ≤ now

section Record
variable {window now : ℕ} {record : Option ClientWindow}
  {reference : Option FixedWindow.Window}

theorem saturatingDurationSince_lt (hw : 0 < window) (start : ℕ) :
    saturatingDurationSince now start < window ↔ now < start + window := by
  unfold saturatingDurationSince
  omega

theorem Agree.later {later : ℕ} (h : Agree window now record reference) (hn : now ≤ later) :
    Agree window later record reference := by
  rcases h with h | ⟨hr, w, hw, hover⟩
  · exact .inl h
  · exact .inr ⟨hr, w, hw, Nat.le_trans hover hn⟩

/-- Cleanup drops only records that are over. -/
theorem Agree.retain (hw : 0 < window) (h : Agree window now record reference) :
    Agree window now (record.filter fun c => saturatingDurationSince now c.startedAt < window)
      reference := by
  rcases h with rfl | ⟨rfl, hover⟩
  · cases record with
    | none => exact .inl rfl
    | some c =>
      by_cases hc : now < c.startedAt + window
      · exact .inl (by simp [saturatingDurationSince_lt hw, hc])
      · have hover := Nat.not_lt.mp hc
        exact .inr ⟨by simp [saturatingDurationSince_lt hw, hover], c.toWindow, rfl, hover⟩
  · exact .inr ⟨rfl, hover⟩

/-- Insertion and reset together: a record that is over counts as a missing one. -/
theorem clientAt_eq (hw : 0 < window) : RateLimiter.clientAt window now record =
    match record with
    | some c => if c.startedAt + window ≤ now then ⟨now, 0⟩ else c
    | none => ⟨now, 0⟩ := by
  cases record with
  | none =>
    have : ¬ window ≤ 0 := Nat.not_le.mpr hw
    simp [RateLimiter.clientAt, saturatingDurationSince, this]
  | some c =>
    have hover : saturatingDurationSince now c.startedAt ≥ window ↔ c.startedAt + window ≤ now := by
      rw [ge_iff_le, ← Nat.not_lt, saturatingDurationSince_lt hw, Nat.not_lt]
    simp [RateLimiter.clientAt, hover]

theorem clientAt_toWindow (hw : 0 < window) (h : Agree window now record reference) :
    (RateLimiter.clientAt window now record).toWindow =
      FixedWindow.current window reference now := by
  rw [clientAt_eq hw]
  rcases h with rfl | ⟨rfl, w, rfl, hover⟩
  · cases record with
    | none => rfl
    | some c =>
      simp only [Option.map_some, FixedWindow.current, ClientWindow.toWindow]
      split <;> rfl
  · rw [FixedWindow.current_expired hover]
    rfl

/-- `u32` saturation never shows, since a request is only counted below the limit. -/
theorem saturatingAdd_below {limit : U32} {n : ℕ} (h : n < limit.val) :
    saturatingAdd n 1 = n + 1 := by
  have hlimit := limit.isLt
  unfold saturatingAdd
  omega

theorem decide_client (limit : U32) (window : ℕ) (c : ClientWindow) :
    (RateLimiter.decide limit window now c).1 = ⟨c.startedAt, c.requests +
      if (RateLimiter.decide limit window now c).2.allowed then 1 else 0⟩ := by
  by_cases hroom : c.requests < limit.val
  · simp [RateLimiter.decide, hroom, saturatingAdd_below hroom]
  · simp [RateLimiter.decide, hroom]

theorem decide_serve (limit : U32) (window : ℕ) {c : ClientWindow} (hstart : c.startedAt ≤ now) :
    (RateLimiter.decide limit window now c).1.toWindow = FixedWindow.charge limit c.toWindow ∧
      (RateLimiter.decide limit window now c).2.toVerdict =
        FixedWindow.verdict limit window c.toWindow now := by
  have hreset : window - (now - c.startedAt) = c.startedAt + window - now := by omega
  by_cases hc : c.requests < limit.val
  · simp [RateLimiter.decide, FixedWindow.charge, FixedWindow.verdict, ClientWindow.toWindow,
      Decision.toVerdict, saturatingDurationSince, hc, saturatingAdd_below hc, hreset]
  · simp [RateLimiter.decide, FixedWindow.charge, FixedWindow.verdict, ClientWindow.toWindow,
      Decision.toVerdict, saturatingDurationSince, hc, hreset]

end Record

section Limiter
variable {hash} {limiter : RateLimiter} {now : ℕ} {key : IpAddr}

@[simp] theorem check_limit : (limiter.check hash key now).1.limit = limiter.limit := rfl

@[simp] theorem check_window : (limiter.check hash key now).1.window = limiter.window := rfl

theorem cleanup_clients (window now : ℕ) (state : RateLimiterState) (k : IpAddr) :
    (RateLimiter.cleanup window now state).clients k = state.clients k ∨
      (RateLimiter.cleanup window now state).clients k = (state.clients k).filter
        fun c => saturatingDurationSince now c.startedAt < window := by
  unfold RateLimiter.cleanup
  split
  · exact .inr rfl
  · exact .inl rfl

/-- The record a call works on, after the cleanup it may trigger. -/
def cleanedRecord (hash : IpAddr → ℕ) (limiter : RateLimiter) (now : ℕ) (key k : IpAddr) :
    Option ClientWindow :=
  (RateLimiter.cleanup limiter.window now
    (limiter.shards (RateLimiter.shardIndex hash key))).clients k

theorem client_check_self : (limiter.check hash key now).1.client hash key =
    some (RateLimiter.decide limiter.limit limiter.window now
      (RateLimiter.clientAt limiter.window now (cleanedRecord hash limiter now key key))).1 := by
  simp [RateLimiter.check, RateLimiter.client, cleanedRecord]

theorem check_decision : (limiter.check hash key now).2 =
    (RateLimiter.decide limiter.limit limiter.window now
      (RateLimiter.clientAt limiter.window now (cleanedRecord hash limiter now key key))).2 := rfl

/-- A call of another address keeps the record, or drops it in the cleanup of their shard. -/
theorem client_check_ne (hash : IpAddr → ℕ) (limiter : RateLimiter) (now : ℕ) {k : IpAddr}
    (hk : k ≠ key) :
    (limiter.check hash key now).1.client hash k = limiter.client hash k ∨
      RateLimiter.shardIndex hash key = RateLimiter.shardIndex hash k ∧
        (limiter.check hash key now).1.client hash k = (limiter.client hash k).filter
          fun c => saturatingDurationSince now c.startedAt < limiter.window := by
  by_cases hs : RateLimiter.shardIndex hash k = RateLimiter.shardIndex hash key
  · have hclient : (limiter.check hash key now).1.client hash k =
        cleanedRecord hash limiter now key k := by
      simp [RateLimiter.check, RateLimiter.client, cleanedRecord, hs, HashMap.insert_of_ne _ _ hk]
    rw [hclient, RateLimiter.client, hs]
    rcases cleanup_clients limiter.window now
      (limiter.shards (RateLimiter.shardIndex hash key)) k with hc | hc
    · exact .inl hc
    · exact .inr ⟨rfl, hc⟩
  · exact .inl (by simp [RateLimiter.check, RateLimiter.client, Function.update_of_ne hs])

end Limiter

/-- The reference window of an address, fed only its own calls. -/
def reference (limiter : RateLimiter) (calls : List (IpAddr × ℕ)) (key : IpAddr) :
    Option FixedWindow.Window := FixedWindow.run limiter.limit limiter.window (ownCalls key calls)

structure Tracks (limiter : RateLimiter) (calls : List (IpAddr × ℕ)) (now : ℕ) : Prop where
  agree : ∀ key, Agree limiter.window now (limiter.client hash key) (reference limiter calls key)
  past : ∀ key w, reference limiter calls key = some w → w.start ≤ now

section Simulation
variable {hash} {limiter : RateLimiter} {calls : List (IpAddr × ℕ)} {now : ℕ} {key : IpAddr}

theorem Tracks.later {later : ℕ} (h : Tracks hash limiter calls now) (hn : now ≤ later) :
    Tracks hash limiter calls later where
  agree k := (h.agree k).later hn
  past k w hw := Nat.le_trans (h.past k w hw) hn

theorem Tracks.cleaned (h : Tracks hash limiter calls now) (k : IpAddr) :
    Agree limiter.window now (cleanedRecord hash limiter now k k) (reference limiter calls k) := by
  rcases cleanup_clients limiter.window now
    (limiter.shards (RateLimiter.shardIndex hash k)) k with hc | hc
  · rw [cleanedRecord, hc]
    exact h.agree k
  · rw [cleanedRecord, hc]
    exact (h.agree k).retain limiter.window_pos

/-- The window a call is charged to is the reference's. -/
theorem Tracks.current (h : Tracks hash limiter calls now) (key : IpAddr) :
    (RateLimiter.clientAt limiter.window now (cleanedRecord hash limiter now key
      key)).toWindow = FixedWindow.current limiter.window (reference limiter calls key) now :=
  clientAt_toWindow limiter.window_pos (h.cleaned key)

theorem Tracks.serve (h : Tracks hash limiter calls now) (key : IpAddr) :
    (RateLimiter.decide limiter.limit limiter.window now (RateLimiter.clientAt limiter.window now
        (cleanedRecord hash limiter now key key))).1.toWindow =
      (FixedWindow.serve limiter.limit limiter.window (reference limiter calls key) now).1 ∧
    (limiter.check hash key now).2.toVerdict =
      (FixedWindow.serve limiter.limit limiter.window (reference limiter calls key) now).2 := by
  have hcur := h.current key
  have hstart : (RateLimiter.clientAt limiter.window now
      (cleanedRecord hash limiter now key key)).startedAt ≤ now := by
    have hle := FixedWindow.current_start_le limiter.window (h.past key)
    rwa [← hcur] at hle
  obtain ⟨hclient, hdecision⟩ := decide_serve limiter.limit limiter.window hstart
  rw [hcur] at hclient hdecision
  exact ⟨hclient, hdecision⟩

/-- One call keeps the simulation, whichever shard and cleanup it meets. -/
theorem Tracks.check (h : Tracks hash limiter calls now) (key : IpAddr) :
    Tracks hash (limiter.check hash key now).1 (calls ++ [(key, now)]) now where
  agree k := by
    by_cases hk : k = key
    · subst hk
      rw [client_check_self, reference, ownCalls_snoc_self, FixedWindow.run_snoc]
      exact .inl (congrArg some (h.serve k).1)
    · rw [reference, ownCalls_snoc_ne (Ne.symm hk)]
      rcases client_check_ne hash limiter now hk with hc | ⟨-, hc⟩
      · rw [hc]
        exact h.agree k
      · rw [hc]
        exact (h.agree k).retain limiter.window_pos
  past k w hw := by
    by_cases hk : k = key
    · subst hk
      rw [reference, ownCalls_snoc_self, FixedWindow.run_snoc] at hw
      obtain rfl := Option.some.inj hw
      rw [FixedWindow.serve, FixedWindow.charge_start]
      exact FixedWindow.current_start_le limiter.window (h.past k)
    · rw [reference, ownCalls_snoc_ne (Ne.symm hk)] at hw
      exact h.past k w hw

theorem tracks_new (hash : IpAddr → ℕ) {limit : U32} {window start : ℕ}
    (hlimiter : limiter.limit = limit ∧
    limiter.window = window ∧
    ∀ i, limiter.shards i = { clients := HashMap.empty, lastCleanup := start }) (now : ℕ) :
    Tracks hash limiter [] now where
  agree k := .inl (by simp [RateLimiter.client, hlimiter.2.2, HashMap.empty, reference,
    ownCalls, FixedWindow.run])
  past k w hw := by simp [reference, ownCalls, FixedWindow.run] at hw

@[simp] theorem checks_snoc (call : IpAddr × ℕ) : limiter.checks hash (calls ++ [call]) =
    ((limiter.checks hash calls).check hash call.1 call.2).1 := by
  simp [RateLimiter.checks]

@[simp] theorem checks_limit : (limiter.checks hash calls).limit = limiter.limit := by
  induction calls using List.reverseRecOn with
  | nil => rfl
  | append_singleton calls call ih => rw [checks_snoc, check_limit, ih]

@[simp] theorem checks_window : (limiter.checks hash calls).window = limiter.window := by
  induction calls using List.reverseRecOn with
  | nil => rfl
  | append_singleton calls call ih => rw [checks_snoc, check_window, ih]

theorem reference_checks (calls' : List (IpAddr × ℕ)) :
    reference (limiter.checks hash calls) calls' key = reference limiter calls' key := by
  simp [reference]

/-- Along every run with non-decreasing times the simulation holds. -/
theorem tracks_checks (hnew : ∀ now, Tracks hash limiter [] now)
    (hmono : (calls.map Prod.snd).Pairwise (· ≤ ·)) (hpast : ∀ call ∈ calls, call.2 ≤ now) :
    Tracks hash (limiter.checks hash calls) calls now := by
  induction calls using List.reverseRecOn generalizing now with
  | nil => exact hnew now
  | append_singleton calls call ih =>
    rw [List.map_append, List.pairwise_append] at hmono
    have hle : ∀ c ∈ calls, c.2 ≤ call.2 := fun c hc =>
      hmono.2.2 c.2 (List.mem_map_of_mem hc) call.2 (by simp)
    rw [checks_snoc]
    exact ((ih hmono.1 hle).check call.1).later (hpast call (by simp))

/-- The limiter's answer after any history is the reference's. -/
theorem decision_eq_reference (hnew : ∀ now, Tracks hash limiter [] now)
    (hmono : ((calls ++ [(key, now)]).map Prod.snd).Pairwise (· ≤ ·)) :
    ((limiter.checks hash calls).check hash key now).2.toVerdict =
      (FixedWindow.serve limiter.limit limiter.window (reference limiter calls key) now).2 := by
  rw [List.map_append, List.pairwise_append] at hmono
  have hle : ∀ c ∈ calls, c.2 ≤ now := fun c hc =>
    hmono.2.2 c.2 (List.mem_map_of_mem hc) now (by simp)
  simpa [reference] using ((tracks_checks hnew hmono.1 hle).serve key).2

theorem Decision.toVerdict_injective : Function.Injective Decision.toVerdict := by
  rintro ⟨a, r, t⟩ ⟨a', r', t'⟩ h
  simpa [Decision.toVerdict] using h

end Simulation

/-- Every decision of a limiter is the one a never-cleaned window, fed only the client's
own calls, would give. So calls of other clients, and the cleanups they trigger, do not
matter: two histories in which the client made the same calls end in the same decision. -/
theorem check_refines_reference (limit : U32) (window start : ℕ) (hlimit : 0 < limit.val)
    (hwindow : 0 < window) :
    ∃ limiter, RateLimiter.new limit window start = .ok limiter ∧
      ∀ (hash : IpAddr → ℕ) (calls : List (IpAddr × ℕ)) (key : IpAddr) (now : ℕ),
        ((calls ++ [(key, now)]).map Prod.snd).Pairwise (· ≤ ·) →
          ((limiter.checks hash calls).check hash key now).2.toVerdict =
            (FixedWindow.serve limit window (FixedWindow.run limit window (ownCalls key calls))
              now).2 ∧
          ∀ calls', ((calls' ++ [(key, now)]).map Prod.snd).Pairwise (· ≤ ·) →
            ownCalls key calls' = ownCalls key calls →
              ((limiter.checks hash calls').check hash key now).2 =
                ((limiter.checks hash calls).check hash key now).2 := by
  obtain ⟨limiter, hnew, hfields⟩ := RateLimiter.new_ok hlimit hwindow start
  refine ⟨limiter, hnew, ?_⟩
  intro hash calls key now hmono
  have htracks := tracks_new hash hfields
  have hdecision := decision_eq_reference htracks hmono
  constructor
  · simpa [reference, hfields.1, hfields.2.1] using hdecision
  · intro calls' hmono' hown
    apply Decision.toVerdict_injective
    rw [decision_eq_reference htracks hmono', hdecision, reference, reference, hown]

/-- A limit of two: the third call of a window is denied, whatever another address does. -/
theorem check_refines_reference_third : ∃ limiter,
    RateLimiter.new 2 (Duration.fromMins 1) 0 = .ok limiter ∧
      ((limiter.checks (fun _ => 0) [(.v4 1, 0), (.v4 2, 1), (.v4 1, 2)]).check (fun _ => 0)
        (.v4 1) 3).2.toVerdict = ⟨false, 0, Duration.fromMins 1 - 3⟩ := by
  obtain ⟨limiter, hnew, h⟩ :=
    check_refines_reference 2 (Duration.fromMins 1) 0 (by decide) (by decide)
  refine ⟨limiter, hnew, ?_⟩
  rw [(h (fun _ => 0) [(.v4 1, 0), (.v4 2, 1), (.v4 1, 2)] (.v4 1) 3 (by decide)).1]
  rfl

end MojangApi.RateLimit
