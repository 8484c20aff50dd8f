import MojangApi.Library.FixedWindow.Budget
import MojangApi.Library.Lists
import MojangApi.RateLimit.Reference

/-! # What a client can get out of the limiter

The calls of one address are counted along a run of everybody's calls, and the
bounds of the reference window are read back through the simulation. A window
opens with the call that inserts a record or resets one that is over.
-/

namespace MojangApi.RateLimit
open Library

namespace RateLimiter

/-- Every call of a run with its decision. -/
def outcomes (hash : IpAddr → ℕ) (limiter : RateLimiter) :
    List (IpAddr × ℕ) → List ((IpAddr × ℕ) × Decision)
  | [] => []
  | call :: calls =>
    (call, (limiter.check hash call.1 call.2).2) ::
      outcomes hash (limiter.check hash call.1 call.2).1 calls

/-- How many calls of an address, at times that satisfy a predicate, a run allows. -/
def allowedCalls (hash : IpAddr → ℕ) (limiter : RateLimiter) (key : IpAddr) (p : ℕ → Bool)
    (calls : List (IpAddr × ℕ)) : ℕ :=
  (limiter.outcomes hash calls).countP fun o => o.1.1 == key && (p o.1.2 && o.2.allowed)

/-- Whether a call inserts a record for its address, or resets the one it finds. -/
def opens (hash : IpAddr → ℕ) (limiter : RateLimiter) (key : IpAddr) (now : ℕ) : Bool :=
  match (cleanup limiter.window now (limiter.shards (shardIndex hash key))).clients key with
  | none => true
  | some client => saturatingDurationSince now client.startedAt ≥ limiter.window

/-- The decision on a call that follows a run. -/
def decisionAfter (hash : IpAddr → ℕ) (limiter : RateLimiter) (calls : List (IpAddr × ℕ))
    (key : IpAddr) (now : ℕ) : Decision :=
  ((limiter.checks hash calls).check hash key now).2

end RateLimiter

/-- The half-open interval that begins at a time and is as long as a window. -/
def within (begin window : ℕ) (time : ℕ) : Bool := begin ≤ time && time < begin + window

theorem within_iff {begin window : ℕ} (time : ℕ) :
    within begin window time = true ↔ begin ≤ time ∧ time < begin + window := by
  simp [within]

variable {hash : IpAddr → ℕ} {limiter : RateLimiter} {key : IpAddr} {p : ℕ → Bool} {now : ℕ}
  {calls calls' : List (IpAddr × ℕ)}

section Opening

theorem clientAt_opening (hopens : limiter.opens hash key now = true) :
    RateLimiter.clientAt limiter.window now (cleanedRecord hash limiter now key key) =
      ⟨now, 0⟩ := by
  unfold RateLimiter.opens at hopens
  unfold cleanedRecord
  split at hopens
  · rename_i hnone
    rw [hnone]
    simp [RateLimiter.clientAt]
  · rename_i client hsome
    have hover : saturatingDurationSince now client.startedAt ≥ limiter.window := by
      simpa using hopens
    rw [hsome]
    simp [RateLimiter.clientAt, hover]

/-- A call that opens no window goes to the record that is there. -/
theorem clientAt_open (hopens : limiter.opens hash key now = false) :
    limiter.client hash key = some (RateLimiter.clientAt limiter.window now
      (cleanedRecord hash limiter now key key)) := by
  unfold RateLimiter.opens at hopens
  split at hopens
  · contradiction
  · rename_i client hsome
    have hopen : ¬ saturatingDurationSince now client.startedAt ≥ limiter.window := by
      simpa using hopens
    have hrecord : limiter.client hash key = some client := by
      rcases cleanup_clients limiter.window now
        (limiter.shards (RateLimiter.shardIndex hash key)) key with hc | hc
      · exact hc.symm.trans hsome
      · exact (Option.filter_eq_some_iff.mp (hc.symm.trans hsome)).1
    rw [cleanedRecord, hsome, hrecord]
    simp [RateLimiter.clientAt, hopen]

/-- A record is only replaced when the call is at least a window away from its start. -/
theorem opens_over {client : ClientWindow} (hopens : limiter.opens hash key now = true)
    (hclient : limiter.client hash key = some client) :
    client.startedAt + limiter.window ≤ now := by
  by_contra hopen
  have hlt : saturatingDurationSince now client.startedAt < limiter.window :=
    (saturatingDurationSince_lt limiter.window_pos _).mpr (Nat.not_le.mp hopen)
  have hkept : (RateLimiter.cleanup limiter.window now
      (limiter.shards (RateLimiter.shardIndex hash key))).clients key = some client := by
    rcases cleanup_clients limiter.window now
      (limiter.shards (RateLimiter.shardIndex hash key)) key with hc | hc
    · exact hc.trans hclient
    · exact hc.trans (Option.filter_eq_some_iff.mpr ⟨hclient, by simpa using hlt⟩)
  rw [RateLimiter.opens, hkept] at hopens
  have hge : limiter.window ≤ saturatingDurationSince now client.startedAt := by
    simpa using hopens
  omega

end Opening

section Runs

theorem sorted_upTo {call : IpAddr × ℕ}
    (hsorted : ((calls ++ call :: calls').map Prod.snd).Pairwise (· ≤ ·)) :
    ((calls ++ [call]).map Prod.snd).Pairwise (· ≤ ·) := by
  rw [List.map_append, List.map_cons] at hsorted
  rw [List.map_append]
  exact pairwise_upTo hsorted

theorem ownCalls_sorted (key : IpAddr) (hsorted : (calls.map Prod.snd).Pairwise (· ≤ ·)) :
    (ownCalls key calls).Pairwise (· ≤ ·) :=
  hsorted.sublist (List.filter_sublist.map Prod.snd)

theorem checks_append : limiter.checks hash (calls ++ calls') =
    (limiter.checks hash calls).checks hash calls' := by
  simp [RateLimiter.checks]

theorem outcomes_append : limiter.outcomes hash (calls ++ calls') =
    limiter.outcomes hash calls ++ (limiter.checks hash calls).outcomes hash calls' := by
  induction calls generalizing limiter with
  | nil => rfl
  | cons call calls ih =>
    rw [List.cons_append, RateLimiter.outcomes, ih]
    rfl

theorem outcomes_calls : (limiter.outcomes hash calls).map Prod.fst = calls := by
  induction calls generalizing limiter with
  | nil => rfl
  | cons call calls ih => rw [RateLimiter.outcomes, List.map_cons, ih]

theorem allowedCalls_append : limiter.allowedCalls hash key p (calls ++ calls') =
    limiter.allowedCalls hash key p calls +
      (limiter.checks hash calls).allowedCalls hash key p calls' := by
  rw [RateLimiter.allowedCalls, outcomes_append, List.countP_append]
  rfl

theorem allowedCalls_cons (call : IpAddr × ℕ) : limiter.allowedCalls hash key p (call :: calls) =
    (if call.1 == key && (p call.2 && (limiter.check hash call.1 call.2).2.allowed)
      then 1 else 0) +
      (limiter.check hash call.1 call.2).1.allowedCalls hash key p calls := by
  rw [RateLimiter.allowedCalls, RateLimiter.outcomes, List.countP_cons, Nat.add_comm]
  rfl

theorem allowedCalls_eq_zero (h : ∀ now ∈ ownCalls key calls, p now = false) :
    limiter.allowedCalls hash key p calls = 0 := by
  rw [RateLimiter.allowedCalls, List.countP_eq_zero]
  rintro ⟨call, decision⟩ hmem
  have hcall : call ∈ calls := by
    have hmap := List.mem_map_of_mem (f := Prod.fst) hmem
    rwa [outcomes_calls] at hmap
  by_cases hk : call.1 = key
  · have hown : call.2 ∈ ownCalls key calls :=
      List.mem_map_of_mem (List.mem_filter.mpr ⟨hcall, by simpa using hk⟩)
    simp [h call.2 hown]
  · simp [hk]

end Runs

section Simulation

/-- Along a run, an address's calls are allowed as its reference window would. -/
theorem Tracks.allowedCalls (h : Tracks hash limiter calls now)
    (hsorted : (calls'.map Prod.snd).Pairwise (· ≤ ·)) (hlater : ∀ call ∈ calls', now ≤ call.2) :
    limiter.allowedCalls hash key p calls' = FixedWindow.admitted limiter.limit limiter.window p
      (reference limiter calls key) (ownCalls key calls') := by
  induction calls' generalizing limiter calls now with
  | nil => rfl
  | cons call calls' ih =>
    rw [List.map_cons, List.pairwise_cons] at hsorted
    have hnow := h.later (hlater call List.mem_cons_self)
    have hrest := ih (hnow.check call.1) hsorted.2 fun next hmem =>
      hsorted.1 next.2 (List.mem_map_of_mem hmem)
    rw [allowedCalls_cons, hrest, check_limit, check_window]
    by_cases hk : call.1 = key
    · subst hk
      have hallowed := congrArg FixedWindow.Verdict.allowed (hnow.serve call.1).2
      change (limiter.check hash call.1 call.2).2.allowed = _ at hallowed
      have hown : ownCalls call.1 (call :: calls') = call.2 :: ownCalls call.1 calls' := by
        simp [ownCalls]
      have hnext : reference (limiter.check hash call.1 call.2).1 (calls ++ [call]) call.1 =
          some (FixedWindow.serve limiter.limit limiter.window
            (reference limiter calls call.1) call.2).1 := by
        rw [reference, ownCalls_snoc_self, FixedWindow.run_snoc]
        rfl
      rw [hown, FixedWindow.admitted, hnext, hallowed]
      simp
    · have hown : ownCalls key (call :: calls') = ownCalls key calls' := by
        simp [ownCalls, hk]
      have hnext : reference (limiter.check hash call.1 call.2).1 (calls ++ [call]) key =
          reference limiter calls key := by
        rw [reference, ownCalls_snoc_ne hk]
        rfl
      rw [hown, hnext]
      simp [hk]

/-- A call that opens a window meets none that is still open. -/
theorem Tracks.opening (h : Tracks hash limiter calls now)
    (hopens : limiter.opens hash key now = true) :
    FixedWindow.current limiter.window (reference limiter calls key) now = ⟨now, 0⟩ := by
  rw [← h.current key, clientAt_opening hopens]
  rfl

/-- From a call that opens a window to its end, the calls of the client meet one window. -/
theorem allowedCalls_le_opening (hnew : ∀ now, Tracks hash limiter [] now)
    (hsorted : ((calls ++ (key, now) :: calls').map Prod.snd).Pairwise (· ≤ ·))
    (hopens : (limiter.checks hash calls).opens hash key now = true)
    (hp : ∀ time, p time = true ↔ now ≤ time ∧ time < now + limiter.window) :
    limiter.allowedCalls hash key p (calls ++ (key, now) :: calls') ≤ limiter.limit := by
  rw [List.map_append, List.pairwise_append] at hsorted
  have hpast : ∀ call ∈ calls, call.2 ≤ now := fun call hmem =>
    hsorted.2.2 call.2 (List.mem_map_of_mem hmem) now (by simp)
  have hfuture : ∀ call ∈ (key, now) :: calls', now ≤ call.2 := by
    intro call hmem
    rcases List.mem_cons.mp hmem with rfl | hmem
    · exact Nat.le_refl _
    · exact (List.pairwise_cons.mp hsorted.2.1).1 call.2 (List.mem_map_of_mem hmem)
  have htracks := tracks_checks hnew hsorted.1 hpast
  have hopening := htracks.opening hopens
  rw [checks_window, reference_checks, reference] at hopening
  have hbefore : ∀ time ∈ ownCalls key calls, p time = false := by
    intro time hmem
    have hlt := FixedWindow.times_lt_opening limiter.limit_pos limiter.window_pos
      (ownCalls_sorted key hsorted.1) hopening time hmem
    by_contra htrue
    have hle := ((hp time).mp (by simpa using htrue)).1
    omega
  have hown : ownCalls key ((key, now) :: calls') = now :: ownCalls key calls' := by
    simp [ownCalls]
  rw [allowedCalls_append, allowedCalls_eq_zero hbefore, htracks.allowedCalls hsorted.2.1 hfuture,
    Nat.zero_add, checks_limit, checks_window, reference_checks, reference, hown]
  exact FixedWindow.admitted_le_opening limiter.limit_pos hopening
    (fun time htime => ((hp time).mp htime).2)
    (ownCalls_sorted key (List.pairwise_cons.mp hsorted.2.1).2)

end Simulation

/-- In any interval as long as a window, wherever it starts, a client gets fewer than two
budgets, and no more than one where it opens a window at the start of the interval. -/
theorem burst_bounded (limit : U32) (window start : ℕ) (hlimit : 0 < limit.val)
    (hwindow : 0 < window) :
    ∃ limiter, RateLimiter.new limit window start = .ok limiter ∧
      ∀ (hash : IpAddr → ℕ) (calls : List (IpAddr × ℕ)) (key : IpAddr) (begin : ℕ),
        (calls.map Prod.snd).Pairwise (· ≤ ·) →
          limiter.allowedCalls hash key (within begin window) calls ≤ 2 * limit.val - 1 ∧
          ∀ before after, calls = before ++ (key, begin) :: after →
            (limiter.checks hash before).opens hash key begin = true →
              limiter.allowedCalls hash key (within begin window) calls ≤ limit.val := by
  obtain ⟨limiter, hnew, hfields⟩ := RateLimiter.new_ok hlimit hwindow start
  obtain ⟨rfl, rfl, -⟩ := id hfields
  refine ⟨limiter, hnew, ?_⟩
  intro hash calls key begin hsorted
  have htracks := tracks_new hash hfields
  constructor
  · rw [(htracks 0).allowedCalls hsorted fun call _ => Nat.zero_le call.2]
    exact FixedWindow.admitted_le_burst limiter.limit_pos within_iff (fun v hv => by cases hv)
      (ownCalls_sorted key hsorted)
  · rintro before after rfl hopens
    exact allowedCalls_le_opening htracks hsorted hopens within_iff

/-- Two requests a minute: at most three in a minute that begins inside a window, and at most
two in one that begins with it. -/
theorem burst_bounded_three : ∃ limiter,
    RateLimiter.new 2 (Duration.fromMins 1) 0 = .ok limiter ∧
      limiter.allowedCalls (fun _ => 0) (.v4 1) (within 1 (Duration.fromMins 1))
        [(.v4 1, 0), (.v4 1, 1), (.v4 2, 2), (.v4 1, Duration.fromMins 1),
          (.v4 1, Duration.fromMins 1)] ≤ 3 ∧
      limiter.allowedCalls (fun _ => 0) (.v4 1) (within 0 (Duration.fromMins 1))
        [(.v4 1, 0), (.v4 1, 1), (.v4 2, 2), (.v4 1, Duration.fromMins 1),
          (.v4 1, Duration.fromMins 1)] ≤ 2 := by
  obtain ⟨limiter, hnew, h⟩ := burst_bounded 2 (Duration.fromMins 1) 0 (by decide) (by decide)
  obtain rfl := Except.ok.inj hnew
  refine ⟨_, rfl, ?_, ?_⟩
  · exact (h (fun _ => 0) _ (.v4 1) 1 (by decide)).1
  · exact (h (fun _ => 0) _ (.v4 1) 0 (by decide)).2 [] _ rfl rfl

section Budget

/-- The window an address is left with: the one a call was charged to, and what its later
calls made of it. -/
theorem reference_after : reference limiter (calls ++ (key, now) :: calls') key =
    FixedWindow.runFrom limiter.limit limiter.window
      (some (FixedWindow.serve limiter.limit limiter.window (reference limiter calls key) now).1)
      (ownCalls key calls') := by
  rw [List.append_cons, reference, ownCalls_append, FixedWindow.run_append, ownCalls_snoc_self,
    FixedWindow.run_snoc]
  rfl

/-- The window a call was charged to, with what its decision tells about it. -/
theorem charged_window (hnew : ∀ now, Tracks hash limiter [] now)
    (hsorted : ((calls ++ [(key, now)]).map Prod.snd).Pairwise (· ≤ ·)) :
    ∃ v : FixedWindow.Window,
      (∀ between, reference limiter (calls ++ (key, now) :: between) key =
        FixedWindow.runFrom limiter.limit limiter.window (some v) (ownCalls key between)) ∧
      v.used ≤ limiter.limit ∧ v.start ≤ now ∧ now < v.start + limiter.window ∧
      (limiter.decisionAfter hash calls key now).remaining = limiter.limit - v.used ∧
      (limiter.decisionAfter hash calls key now).resetAfter =
        v.start + limiter.window - now := by
  have hverdict := decision_eq_reference hnew hsorted
  have hused : ∀ v, reference limiter calls key = some v → v.used ≤ limiter.limit := fun v hv =>
    (FixedWindow.run_used limiter.limit_pos hv).2
  rw [List.map_append, List.pairwise_append] at hsorted
  have hpast : ∀ call ∈ calls, call.2 ≤ now := fun call hmem =>
    hsorted.2.2 call.2 (List.mem_map_of_mem hmem) now (by simp)
  have hstart := (tracks_checks hnew hsorted.1 hpast).past key
  rw [reference_checks] at hstart
  refine ⟨_, fun _ => reference_after, ?_, ?_, ?_, ?_, ?_⟩
  · exact FixedWindow.charge_used_le (FixedWindow.current_used_le hused)
  · rw [FixedWindow.serve, FixedWindow.charge_start]
    exact FixedWindow.current_start_le limiter.window hstart
  · rw [FixedWindow.serve, FixedWindow.charge_start]
    exact FixedWindow.lt_current limiter.window_pos
  · exact congrArg FixedWindow.Verdict.remaining hverdict
  · rw [FixedWindow.serve, FixedWindow.charge_start]
    exact congrArg FixedWindow.Verdict.resetAfter hverdict

/-- What a decision promises about the client's next calls, given those it made in between. -/
structure Promise (limit window now : ℕ) (decision : Decision) (between : List ℕ) (later : ℕ)
    (next : Decision) : Prop where
  within : later < now + decision.resetAfter →
    next.allowed = decide (between.length < decision.remaining) ∧
      later + next.resetAfter = now + decision.resetAfter
  after : now + decision.resetAfter ≤ later →
    (∀ time ∈ between, time < now + decision.resetAfter) → next = ⟨true, limit - 1, window⟩

theorem promise_kept (hnew : ∀ now, Tracks hash limiter [] now) {between : List (IpAddr × ℕ)}
    {later : ℕ}
    (hsorted : ((calls ++ (key, now) :: between ++ [(key, later)]).map Prod.snd).Pairwise
      (· ≤ ·)) :
    Promise limiter.limit limiter.window now (limiter.decisionAfter hash calls key now)
      (ownCalls key between) later
      (limiter.decisionAfter hash (calls ++ (key, now) :: between) key later) := by
  have hverdict := decision_eq_reference hnew hsorted
  have htimes : ∀ time ∈ ownCalls key between, time ≤ later := by
    intro time hmem
    obtain ⟨call, hcall, rfl⟩ := List.mem_map.mp hmem
    rw [List.map_append, List.pairwise_append] at hsorted
    have hcall : call ∈ calls ++ (key, now) :: between :=
      List.mem_append_right _ (List.mem_cons_of_mem _ (List.mem_filter.mp hcall).1)
    exact hsorted.2.2 call.2 (List.mem_map_of_mem hcall) later (by simp)
  rw [List.append_assoc, List.cons_append] at hsorted
  obtain ⟨v, hreference, hused, hstart, hopen, hremaining, hreset⟩ :=
    charged_window hnew (sorted_upTo hsorted)
  have hend : now + (v.start + limiter.window - now) = v.start + limiter.window := by omega
  rw [hreference between] at hverdict
  constructor
  · intro hlater
    rw [hreset, hend] at hlater ⊢
    obtain ⟨hallowed, hleft⟩ := FixedWindow.serve_within hused
      (fun time hmem => Nat.lt_of_le_of_lt (htimes time hmem) hlater) hlater
    rw [← hverdict] at hallowed hleft
    refine ⟨?_, ?_⟩
    · rw [hremaining]
      exact hallowed
    · have hleft : (limiter.decisionAfter hash (calls ++ (key, now) :: between) key
        later).resetAfter = v.start + limiter.window - later := hleft
      omega
  · intro hlater hbetween
    rw [hreset, hend] at hlater hbetween
    rw [FixedWindow.serve_after limiter.limit_pos hused hbetween hlater] at hverdict
    exact Decision.toVerdict_injective hverdict

end Budget

/-- A decision tells the client exactly what it still gets, and until when. -/
theorem budget_honoured (limit : U32) (window start : ℕ) (hlimit : 0 < limit.val)
    (hwindow : 0 < window) :
    ∃ limiter, RateLimiter.new limit window start = .ok limiter ∧
      ∀ (hash : IpAddr → ℕ) (before after : List (IpAddr × ℕ)) (key : IpAddr) (now : ℕ),
        ((before ++ (key, now) :: after).map Prod.snd).Pairwise (· ≤ ·) →
          0 < (limiter.decisionAfter hash before key now).resetAfter ∧
          (limiter.decisionAfter hash before key now).resetAfter ≤ window ∧
          ∀ between later rest, after = between ++ (key, later) :: rest →
            Promise limit window now (limiter.decisionAfter hash before key now)
              (ownCalls key between) later
              (limiter.decisionAfter hash (before ++ (key, now) :: between) key later) := by
  obtain ⟨limiter, hnew, hfields⟩ := RateLimiter.new_ok hlimit hwindow start
  obtain ⟨rfl, rfl, -⟩ := id hfields
  refine ⟨limiter, hnew, ?_⟩
  intro hash before after key now hsorted
  have htracks := tracks_new hash hfields
  obtain ⟨v, -, -, hstart, hopen, -, hreset⟩ := charged_window htracks (sorted_upTo hsorted)
  rw [hreset]
  refine ⟨by omega, by omega, ?_⟩
  rintro between later rest rfl
  rw [← List.cons_append, ← List.append_assoc] at hsorted
  exact promise_kept htracks (sorted_upTo hsorted)

/-- Two requests a minute: after the first, a second is promised, and no third. -/
theorem budget_honoured_third : ∃ limiter,
    RateLimiter.new 2 (Duration.fromMins 1) 0 = .ok limiter ∧
      limiter.decisionAfter (fun _ => 0) [] (.v4 1) 0 = ⟨true, 1, Duration.fromMins 1⟩ ∧
      Promise 2 (Duration.fromMins 1) 0 ⟨true, 1, Duration.fromMins 1⟩ [1] 3
        (limiter.decisionAfter (fun _ => 0) [(.v4 1, 0), (.v4 1, 1), (.v4 2, 2)] (.v4 1) 3) := by
  obtain ⟨limiter, hnew, h⟩ := budget_honoured 2 (Duration.fromMins 1) 0 (by decide) (by decide)
  obtain rfl := Except.ok.inj hnew
  refine ⟨_, rfl, rfl, ?_⟩
  exact (h (fun _ => 0) [] [(.v4 1, 1), (.v4 2, 2), (.v4 1, 3)] (.v4 1) 0 (by decide)).2.2
    [(.v4 1, 1), (.v4 2, 2)] 3 [] rfl

end MojangApi.RateLimit
