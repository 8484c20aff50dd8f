import MojangApi.RateLimit.Burst
import Mathlib.Data.Set.Card

/-! # Idle clients are forgotten

A cleanup comes at most once a window and only with a call, so a record may
outlive its window. It still starts less than a window before the last cleanup,
and a call finds that cleanup less than a window ago.
-/

namespace MojangApi.RateLimit

variable {hash : IpAddr → ℕ} {limiter : RateLimiter} {key k : IpAddr} {now : ℕ}
  {calls : List (IpAddr × ℕ)}

/-- Every record was started by a call of its client, less than a window before the last
cleanup of its shard or after it. -/
structure Remembers (hash : IpAddr → ℕ) (limiter : RateLimiter) (calls : List (IpAddr × ℕ))
    (now : ℕ) : Prop where
  cleaned : ∀ i, (limiter.shards i).lastCleanup ≤ now
  fresh : ∀ i k client, (limiter.shards i).clients k = some client →
    (limiter.shards i).lastCleanup < client.startedAt + limiter.window
  origin : ∀ i k client, (limiter.shards i).clients k = some client →
    RateLimiter.shardIndex hash k = i ∧ (k, client.startedAt) ∈ calls

section Call

theorem cleanup_recent {window : ℕ} (hwindow : 0 < window) {state : RateLimiterState}
    (h : state.lastCleanup ≤ now) :
    (RateLimiter.cleanup window now state).lastCleanup ≤ now ∧
      now < (RateLimiter.cleanup window now state).lastCleanup + window := by
  unfold RateLimiter.cleanup saturatingDurationSince
  split
  · exact ⟨Nat.le_refl now, Nat.lt_add_of_pos_right hwindow⟩
  · exact ⟨h, by omega⟩

theorem cleanup_kept {window : ℕ} {state : RateLimiterState} {client : ClientWindow}
    (hclient : (RateLimiter.cleanup window now state).clients k = some client) :
    state.clients k = some client := by
  rcases cleanup_clients window now state k with hc | hc
  · exact hc.symm.trans hclient
  · exact (Option.filter_eq_some_iff.mp (hc.symm.trans hclient)).1

/-- A record that survives is as fresh with respect to the new cleanup as to the old one. -/
theorem cleanup_fresh {window : ℕ} (hwindow : 0 < window) {state : RateLimiterState}
    {client : ClientWindow}
    (h : state.clients k = some client → state.lastCleanup < client.startedAt + window)
    (hclient : (RateLimiter.cleanup window now state).clients k = some client) :
    (RateLimiter.cleanup window now state).lastCleanup < client.startedAt + window := by
  have hold := h (cleanup_kept hclient)
  unfold RateLimiter.cleanup at hclient ⊢
  split
  · rename_i hover
    rw [if_pos hover] at hclient
    have hopen := (Option.filter_eq_some_iff.mp hclient).2
    exact (saturatingDurationSince_lt hwindow _).mp (by simpa using hopen)
  · exact hold

theorem clientAt_startedAt {window : ℕ} (record : Option ClientWindow) :
    (RateLimiter.clientAt window now record).startedAt = now ∨
      record = some (RateLimiter.clientAt window now record) := by
  cases record with
  | none =>
    refine .inl ?_
    unfold RateLimiter.clientAt
    dsimp only
    split <;> rfl
  | some client =>
    unfold RateLimiter.clientAt
    dsimp only
    split
    · exact .inl rfl
    · exact .inr rfl

theorem check_lastCleanup :
    ((limiter.check hash key now).1.shards (RateLimiter.shardIndex hash key)).lastCleanup =
      (RateLimiter.cleanup limiter.window now
        (limiter.shards (RateLimiter.shardIndex hash key))).lastCleanup := by
  simp [RateLimiter.check]

theorem check_shard_ne {i : Fin rateLimitShards} (hi : i ≠ RateLimiter.shardIndex hash key) :
    (limiter.check hash key now).1.shards i = limiter.shards i := by
  simp [RateLimiter.check, Function.update_of_ne hi]

/-- A record in the shard of a call is the caller's, or has survived the cleanup. -/
theorem check_record {client : ClientWindow}
    (hclient : ((limiter.check hash key now).1.shards
      (RateLimiter.shardIndex hash key)).clients k = some client) :
    k = key ∧ client.startedAt = (RateLimiter.clientAt limiter.window now
        (cleanedRecord hash limiter now key key)).startedAt ∨
      (RateLimiter.cleanup limiter.window now
        (limiter.shards (RateLimiter.shardIndex hash key))).clients k = some client := by
  by_cases hk : k = key
  · subst hk
    have hself := @client_check_self hash limiter now k
    obtain rfl := Option.some.inj (hself.symm.trans hclient)
    rw [decide_client]
    exact .inl ⟨rfl, rfl⟩
  · refine .inr ?_
    simpa [RateLimiter.check, HashMap.insert_of_ne _ _ hk] using hclient

end Call

section Run

theorem Remembers.later {later : ℕ} (h : Remembers hash limiter calls now) (hn : now ≤ later) :
    Remembers hash limiter calls later where
  cleaned i := (h.cleaned i).trans hn
  fresh := h.fresh
  origin := h.origin

/-- The record a call leaves starts with the call, or is the one it found. -/
theorem Remembers.caller (h : Remembers hash limiter calls now) (key : IpAddr) :
    (RateLimiter.cleanup limiter.window now
        (limiter.shards (RateLimiter.shardIndex hash key))).lastCleanup <
      (RateLimiter.clientAt limiter.window now
        (cleanedRecord hash limiter now key key)).startedAt + limiter.window ∧
    (key, (RateLimiter.clientAt limiter.window now
      (cleanedRecord hash limiter now key key)).startedAt) ∈ calls ++ [(key, now)] := by
  have hrecent := cleanup_recent limiter.window_pos (h.cleaned (RateLimiter.shardIndex hash key))
  rcases @clientAt_startedAt now limiter.window
    (cleanedRecord hash limiter now key key) with hstart | hrecord
  · rw [hstart]
    exact ⟨Nat.lt_of_le_of_lt hrecent.1 (Nat.lt_add_of_pos_right limiter.window_pos), by simp⟩
  · refine ⟨cleanup_fresh limiter.window_pos (h.fresh _ key _) hrecord, ?_⟩
    exact List.mem_append_left _ (h.origin _ key _ (cleanup_kept hrecord)).2

theorem Remembers.check (h : Remembers hash limiter calls now) (key : IpAddr) :
    Remembers hash (limiter.check hash key now).1 (calls ++ [(key, now)]) now where
  cleaned i := by
    by_cases hi : i = RateLimiter.shardIndex hash key
    · subst hi
      rw [check_lastCleanup]
      exact (cleanup_recent limiter.window_pos (h.cleaned _)).1
    · rw [check_shard_ne hi]
      exact h.cleaned i
  fresh i k client hclient := by
    by_cases hi : i = RateLimiter.shardIndex hash key
    · subst hi
      rw [check_lastCleanup, check_window]
      rcases check_record hclient with ⟨-, hstart⟩ | hkept
      · rw [hstart]
        exact (h.caller key).1
      · exact cleanup_fresh limiter.window_pos (h.fresh _ k client) hkept
    · rw [check_shard_ne hi] at hclient ⊢
      exact h.fresh i k client hclient
  origin i k client hclient := by
    by_cases hi : i = RateLimiter.shardIndex hash key
    · subst hi
      rcases check_record hclient with ⟨rfl, hstart⟩ | hkept
      · rw [hstart]
        exact ⟨rfl, (h.caller k).2⟩
      · exact (h.origin _ k client (cleanup_kept hkept)).imp_right (List.mem_append_left _)
    · rw [check_shard_ne hi] at hclient
      exact (h.origin i k client hclient).imp_right (List.mem_append_left _)

theorem remembers_new {start : ℕ} (hlimiter : ∀ i,
    limiter.shards i = { clients := HashMap.empty, lastCleanup := start }) (hnow : start ≤ now) :
    Remembers hash limiter [] now where
  cleaned i := by simpa [hlimiter] using hnow
  fresh i k client hclient := by simp [hlimiter, HashMap.empty] at hclient
  origin i k client hclient := by simp [hlimiter, HashMap.empty] at hclient

/-- Along every run with non-decreasing times, none of them before the first cleanup. -/
theorem remembers_checks {start : ℕ}
    (hnew : ∀ now, start ≤ now → Remembers hash limiter [] now)
    (hsorted : (calls.map Prod.snd).Pairwise (· ≤ ·)) (hpast : ∀ call ∈ calls, call.2 ≤ now)
    (hstart : start ≤ now) (hcalls : ∀ call ∈ calls, start ≤ call.2) :
    Remembers hash (limiter.checks hash calls) calls now := by
  induction calls using List.reverseRecOn generalizing now with
  | nil => exact hnew now hstart
  | append_singleton calls call ih =>
    rw [List.map_append, List.pairwise_append] at hsorted
    have hle : ∀ c ∈ calls, c.2 ≤ call.2 := fun c hc =>
      hsorted.2.2 c.2 (List.mem_map_of_mem hc) call.2 (by simp)
    have hbefore := ih hsorted.1 hle (hcalls call (by simp)) fun c hc =>
      hcalls c (List.mem_append_left _ hc)
    rw [checks_snoc]
    exact (hbefore.check call.1).later (hpast call (by simp))

end Run

/-- The clients that called on the shard of an address at times of interest. -/
def shardCallers (hash : IpAddr → ℕ) (key : IpAddr) (p : ℕ → Bool)
    (calls : List (IpAddr × ℕ)) : List IpAddr :=
  (calls.filter fun call =>
    RateLimiter.shardIndex hash call.1 = RateLimiter.shardIndex hash key && p call.2).map Prod.fst

/-- The addresses with a record in the shard of an address. -/
def recorded (hash : IpAddr → ℕ) (limiter : RateLimiter) (key : IpAddr) : Set IpAddr :=
  {k | (limiter.shards (RateLimiter.shardIndex hash key)).clients k ≠ none}

section Shard
variable (h : Remembers hash limiter calls now)
include h

/-- The shard of a call was cleaned less than a window ago. -/
theorem Remembers.started_recent {client : ClientWindow}
    (hclient : ((limiter.check hash key now).1.shards
      (RateLimiter.shardIndex hash key)).clients k = some client) :
    now < client.startedAt + 2 * limiter.window := by
  have hrecent := (cleanup_recent limiter.window_pos
    (h.cleaned (RateLimiter.shardIndex hash key))).2
  have hfresh := (h.check key).fresh _ k client hclient
  rw [check_lastCleanup, check_window] at hfresh
  omega

theorem Remembers.started_le (hpast : ∀ call ∈ calls, call.2 ≤ now) {client : ClientWindow}
    (hclient : ((limiter.check hash key now).1.shards
      (RateLimiter.shardIndex hash key)).clients k = some client) :
    client.startedAt ≤ now := by
  have hmem := ((h.check key).origin _ k client hclient).2
  rcases List.mem_append.mp hmem with hmem | hmem
  · exact hpast _ hmem
  · simp only [List.mem_singleton, Prod.mk.injEq] at hmem
    exact Nat.le_of_eq hmem.2

/-- Every record belongs to a client that has called on the shard in the last two windows. -/
theorem Remembers.recorded_subset : recorded hash (limiter.check hash key now).1 key ⊆
    (shardCallers hash key (fun time => now < time + 2 * limiter.window)
      (calls ++ [(key, now)])).toFinset := by
  intro k hk
  obtain ⟨client, hclient⟩ := Option.ne_none_iff_exists'.mp hk
  obtain ⟨hshard, hmem⟩ := (h.check key).origin _ k client hclient
  have hrecent := h.started_recent hclient
  rw [Finset.mem_coe, List.mem_toFinset]
  exact List.mem_map.mpr ⟨(k, client.startedAt),
    List.mem_filter.mpr ⟨hmem, by simp [hshard, hrecent]⟩, rfl⟩

end Shard

/-- After a call, its shard holds no record that was started two windows ago, and so no more
records than clients have called on it since. -/
theorem idle_forgotten (limit : U32) (window start : ℕ) (hlimit : 0 < limit.val)
    (hwindow : 0 < window) :
    ∃ limiter, RateLimiter.new limit window start = .ok limiter ∧
      ∀ (hash : IpAddr → ℕ) (calls : List (IpAddr × ℕ)) (key : IpAddr) (now : ℕ),
        ((calls ++ [(key, now)]).map Prod.snd).Pairwise (· ≤ ·) →
        (∀ call ∈ calls ++ [(key, now)], start ≤ call.2) →
          (∀ k client, ((limiter.checks hash (calls ++ [(key, now)])).shards
              (RateLimiter.shardIndex hash key)).clients k = some client →
            now < client.startedAt + 2 * window ∧ client.startedAt ≤ now) ∧
          (recorded hash (limiter.checks hash (calls ++ [(key, now)])) key).encard ≤
            (shardCallers hash key (fun time => now < time + 2 * window)
              (calls ++ [(key, now)])).toFinset.card := by
  obtain ⟨limiter, hnew, hfields⟩ := RateLimiter.new_ok hlimit hwindow start
  obtain ⟨rfl, rfl, hshards⟩ := hfields
  refine ⟨limiter, hnew, ?_⟩
  intro hash calls key now hsorted hstart
  rw [List.map_append, List.pairwise_append] at hsorted
  have hpast : ∀ call ∈ calls, call.2 ≤ now := fun call hmem =>
    hsorted.2.2 call.2 (List.mem_map_of_mem hmem) now (by simp)
  have hremembers : Remembers hash (limiter.checks hash calls) calls now :=
    remembers_checks (fun _ => remembers_new hshards) hsorted.1 hpast (hstart (key, now) (by simp))
      fun call hmem => hstart call (List.mem_append_left _ hmem)
  rw [checks_snoc]
  constructor
  · intro k client hclient
    have hrecent := hremembers.started_recent hclient
    rw [checks_window] at hrecent
    exact ⟨hrecent, hremembers.started_le hpast hclient⟩
  · have hsubset := @Remembers.recorded_subset _ _ key _ _ hremembers
    rw [checks_window] at hsubset
    exact (Set.encard_le_encard hsubset).trans_eq (Set.encard_coe_eq_coe_finsetCard _)

/-- Of three addresses on one shard, two called more than two minutes ago, and at most one
record is left. -/
theorem idle_forgotten_three : ∃ limiter,
    RateLimiter.new 1 (Duration.fromMins 1) 0 = .ok limiter ∧
      (recorded (fun _ => 0) (limiter.checks (fun _ => 0)
        [(.v4 1, 0), (.v4 2, 1), (.v4 3, Duration.fromMins 3)]) (.v4 3)).encard ≤ 1 := by
  obtain ⟨limiter, hnew, h⟩ := idle_forgotten 1 (Duration.fromMins 1) 0 (by decide) (by decide)
  have hsize := (h (fun _ => 0) [(.v4 1, 0), (.v4 2, 1)] (.v4 3) (Duration.fromMins 3) (by decide)
    (by decide)).2
  exact ⟨limiter, hnew, hsize⟩

end MojangApi.RateLimit
