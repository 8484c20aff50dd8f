import MojangApi.RateLimit.Burst

/-! # Clock readings that run backwards

The clock is read before the lock is taken, so a call can come with a reading
older than the record and the last cleanup it meets. Nothing here assumes an
order of the times. A record is followed from the call that opened it: it
counts what was allowed, or a call of its shard has seen its window end.
-/

namespace MojangApi.RateLimit

/-- Of the calls after a run, none of the address opens a window. -/
def NoOpening (hash : IpAddr → ℕ) (limiter : RateLimiter) (key : IpAddr)
    (calls : List (IpAddr × ℕ)) : Prop :=
  ∀ before now after, calls = before ++ (key, now) :: after →
    (limiter.checks hash before).opens hash key now = false

/-- Some call on the shard of the address came when the window opened then was over. -/
def Outlasted (hash : IpAddr → ℕ) (window : ℕ) (key : IpAddr) (opened : ℕ)
    (calls : List (IpAddr × ℕ)) : Prop :=
  ∃ call ∈ calls, RateLimiter.shardIndex hash call.1 = RateLimiter.shardIndex hash key ∧
    opened + window ≤ call.2

/-- Every record is within its budget and was charged for the call that opened it. -/
def Charged (hash : IpAddr → ℕ) (limiter : RateLimiter) : Prop :=
  ∀ key client, limiter.client hash key = some client →
    1 ≤ client.requests ∧ client.requests ≤ limiter.limit

variable {hash : IpAddr → ℕ} {limiter : RateLimiter} {key : IpAddr} {opened now : ℕ}
  {calls : List (IpAddr × ℕ)}

section Record
variable {limit : U32} {window : ℕ} {client : ClientWindow}

theorem decide_charged (hlimit : 0 < limit.val) (hused : client.requests ≤ limit.val) :
    1 ≤ (RateLimiter.decide limit window now client).1.requests ∧
      (RateLimiter.decide limit window now client).1.requests ≤ limit.val := by
  rw [decide_client]
  by_cases hroom : client.requests < limit.val
  · simp only [RateLimiter.decide, hroom, decide_true, if_true]
    omega
  · simp only [RateLimiter.decide, hroom, decide_false, Bool.false_eq_true, if_false]
    omega

theorem clientAt_reset (hwindow : 0 < window) (record : Option ClientWindow) :
    saturatingDurationSince now (RateLimiter.clientAt window now record).startedAt < window := by
  unfold RateLimiter.clientAt
  dsimp only
  split
  · simpa [saturatingDurationSince] using hwindow
  · omega

theorem clientAt_used (h : ∀ client, limiter.client hash key = some client →
    client.requests ≤ limiter.limit) :
    (RateLimiter.clientAt limiter.window now (cleanedRecord hash limiter now key key)).requests ≤
      limiter.limit := by
  cases hopens : limiter.opens hash key now with
  | true =>
    rw [clientAt_opening hopens]
    exact Nat.zero_le _
  | false => exact h _ (clientAt_open hopens)

end Record

section Run

/-- One call leaves every record charged, whatever its reading of the clock. -/
theorem Charged.check (h : Charged hash limiter) (key : IpAddr) (now : ℕ) :
    Charged hash (limiter.check hash key now).1 := by
  intro k client hclient
  by_cases hk : k = key
  · subst hk
    rw [client_check_self] at hclient
    obtain rfl := Option.some.inj hclient
    exact decide_charged limiter.limit_pos (clientAt_used fun client hc => (h k client hc).2)
  · rcases client_check_ne hash limiter now hk with hc | ⟨-, hc⟩
    · exact h k client (hc.symm.trans hclient)
    · exact h k client (Option.filter_eq_some_iff.mp (hc.symm.trans hclient)).1

theorem Charged.checks (h : Charged hash limiter) (calls : List (IpAddr × ℕ)) :
    Charged hash (limiter.checks hash calls) := by
  induction calls using List.reverseRecOn with
  | nil => exact h
  | append_singleton calls call ih =>
    rw [checks_snoc]
    exact ih.check call.1 call.2

theorem client_new {start : ℕ} (hlimiter : ∀ i,
    limiter.shards i = { clients := HashMap.empty, lastCleanup := start }) (key : IpAddr) :
    limiter.client hash key = none := by
  simp [RateLimiter.client, hlimiter, HashMap.empty]

theorem charged_new {start : ℕ} (hlimiter : ∀ i,
    limiter.shards i = { clients := HashMap.empty, lastCleanup := start }) :
    Charged hash limiter := by
  intro key client hclient
  cases (client_new hlimiter key).symm.trans hclient

/-- What a call tells its client is what its record holds. -/
theorem Charged.decision (h : Charged hash limiter) (key : IpAddr) (now : ℕ) :
    ∃ client, (limiter.check hash key now).1.client hash key = some client ∧
      1 ≤ client.requests ∧ client.requests ≤ limiter.limit ∧
      0 < (limiter.check hash key now).2.resetAfter ∧
      (limiter.check hash key now).2.resetAfter ≤ limiter.window ∧
      (limiter.check hash key now).2.remaining = limiter.limit - client.requests := by
  have hcharged := h.check key now key _ client_check_self
  have hreset := @clientAt_reset now _ limiter.window_pos (cleanedRecord hash limiter now key key)
  refine ⟨_, client_check_self, hcharged.1, hcharged.2, ?_, Nat.sub_le _ _, rfl⟩
  change 0 < limiter.window - saturatingDurationSince now
    (RateLimiter.decide limiter.limit limiter.window now (RateLimiter.clientAt limiter.window now
      (cleanedRecord hash limiter now key key))).1.startedAt
  rw [decide_client]
  exact Nat.sub_pos_of_lt hreset

end Run

section Segment

/-- The calls of an address, whatever their times. -/
abbrev allTimes (_ : ℕ) : Bool := true

theorem allowedCalls_snoc_self :
    limiter.allowedCalls hash key allTimes (calls ++ [(key, now)]) =
      limiter.allowedCalls hash key allTimes calls +
        if (limiter.decisionAfter hash calls key now).allowed then 1 else 0 := by
  have hown : (key == key && (allTimes now &&
      (limiter.decisionAfter hash calls key now).allowed)) =
        (limiter.decisionAfter hash calls key now).allowed := by simp
  rw [allowedCalls_append, allowedCalls_cons, ← hown]
  rfl

theorem allowedCalls_snoc_ne {k : IpAddr} (hk : k ≠ key) :
    limiter.allowedCalls hash key allTimes (calls ++ [(k, now)]) =
      limiter.allowedCalls hash key allTimes calls := by
  rw [allowedCalls_append, allowedCalls_cons]
  simp [RateLimiter.allowedCalls, RateLimiter.outcomes, hk]

/-- A call that opens a window leaves a record of its own time, with itself counted. -/
theorem client_opening (hopens : limiter.opens hash key opened = true) :
    (limiter.check hash key opened).1.client hash key =
      some ⟨opened, limiter.allowedCalls hash key allTimes [(key, opened)]⟩ := by
  have hcount := @allowedCalls_snoc_self hash limiter key opened []
  rw [List.nil_append] at hcount
  rw [client_check_self, clientAt_opening hopens, decide_client, hcount,
    RateLimiter.decisionAfter, RateLimiter.checks, List.foldl_nil, check_decision,
    clientAt_opening hopens]
  rfl

/-- A call that opens no window counts itself in the record that is there. -/
theorem client_counting {client : ClientWindow} (hopens : limiter.opens hash key now = false)
    (hclient : limiter.client hash key = some client) :
    (limiter.check hash key now).1.client hash key = some ⟨client.startedAt, client.requests +
      if (limiter.check hash key now).2.allowed then 1 else 0⟩ := by
  obtain rfl := Option.some.inj (hclient.symm.trans (clientAt_open hopens))
  rw [client_check_self, decide_client, check_decision]

theorem NoOpening.init {call : IpAddr × ℕ} (h : NoOpening hash limiter key (calls ++ [call])) :
    NoOpening hash limiter key calls := by
  rintro before now after rfl
  exact h before now (after ++ [call]) (by simp)

theorem NoOpening.last (h : NoOpening hash limiter key (calls ++ [(key, now)])) :
    (limiter.checks hash calls).opens hash key now = false := h calls now [] rfl

theorem Outlasted.append {window : ℕ} (h : Outlasted hash window key opened calls)
    (later : List (IpAddr × ℕ)) : Outlasted hash window key opened (calls ++ later) := by
  obtain ⟨call, hmem, hcall⟩ := h
  exact ⟨call, List.mem_append_left later hmem, hcall⟩

/-- A record counts what was allowed since it was opened, or a call of its shard has removed it
when its window was over. -/
def Counts (hash : IpAddr → ℕ) (limiter : RateLimiter) (key : IpAddr) (opened : ℕ)
    (calls : List (IpAddr × ℕ)) : Prop :=
  (limiter.checks hash ((key, opened) :: calls)).client hash key =
      some ⟨opened, limiter.allowedCalls hash key allTimes ((key, opened) :: calls)⟩ ∨
    (limiter.checks hash ((key, opened) :: calls)).client hash key = none ∧
      Outlasted hash limiter.window key opened calls

/-- The client itself calls: the record is there, or the call would open a window. -/
theorem Counts.own (h : Counts hash limiter key opened calls)
    (hkept : (limiter.checks hash ((key, opened) :: calls)).opens hash key now = false) :
    (limiter.checks hash ((key, opened) :: (calls ++ [(key, now)]))).client hash key =
      some ⟨opened, limiter.allowedCalls hash key allTimes
        ((key, opened) :: (calls ++ [(key, now)]))⟩ := by
  rw [← List.cons_append, checks_snoc, allowedCalls_snoc_self]
  rcases h with hrecord | ⟨hnone, -⟩
  · exact client_counting hkept hrecord
  · rw [clientAt_open hkept] at hnone
    cases hnone

/-- Another client calls: on the same shard it may remove the record once its window is over. -/
theorem Counts.other (h : Counts hash limiter key opened calls) {k : IpAddr} (hk : k ≠ key) :
    Counts hash limiter key opened (calls ++ [(k, now)]) := by
  rw [Counts, ← List.cons_append, checks_snoc, allowedCalls_snoc_ne hk]
  rcases client_check_ne hash (limiter.checks hash ((key, opened) :: calls)) now
    (Ne.symm hk) with hc | ⟨hshard, hc⟩
  · rw [hc]
    exact h.imp_right (And.imp_right fun hout => hout.append _)
  · rw [hc]
    rcases h with hrecord | ⟨hnone, hout⟩
    · by_cases hopen : saturatingDurationSince now opened < limiter.window
      · rw [hrecord]
        exact .inl (Option.filter_eq_some_iff.mpr ⟨rfl, by simpa using hopen⟩)
      · refine .inr ⟨?_, (k, now), by simp, hshard, ?_⟩
        · rw [hrecord, Option.filter_some]
          exact if_neg (by simpa using hopen)
        · rw [saturatingDurationSince_lt limiter.window_pos] at hopen
          exact Nat.not_lt.mp hopen
    · rw [hnone]
      exact .inr ⟨rfl, hout.append _⟩

/-- So it goes on until the next opening, within the limit. -/
theorem record_since (hcharged : Charged hash limiter)
    (hopens : limiter.opens hash key opened = true)
    (hno : NoOpening hash (limiter.checks hash [(key, opened)]) key calls) :
    limiter.allowedCalls hash key allTimes ((key, opened) :: calls) ≤ limiter.limit ∧
      Counts hash limiter key opened calls := by
  induction calls using List.reverseRecOn with
  | nil =>
    have hclient := client_opening hopens
    exact ⟨((hcharged.check key opened) key _ hclient).2, .inl hclient⟩
  | append_singleton calls call ih =>
    obtain ⟨hle, hcounts⟩ := ih hno.init
    obtain ⟨k, now⟩ := call
    by_cases hk : k = key
    · subst hk
      have hclient := hcounts.own hno.last
      have hbound := hcharged.checks ((k, opened) :: (calls ++ [(k, now)])) k _ hclient
      rw [checks_limit] at hbound
      exact ⟨hbound.2, .inl hclient⟩
    · refine ⟨?_, hcounts.other hk⟩
      rwa [← List.cons_append, allowedCalls_snoc_ne hk]

/-- The next opening does not come before a call of the shard has met the end of the window. -/
theorem outlasted_of_opens {reopened : ℕ} (hcharged : Charged hash limiter)
    (hopens : limiter.opens hash key opened = true)
    (hno : NoOpening hash (limiter.checks hash [(key, opened)]) key calls)
    (hreopens : (limiter.checks hash ((key, opened) :: calls)).opens hash key reopened = true) :
    Outlasted hash limiter.window key opened (calls ++ [(key, reopened)]) := by
  obtain ⟨-, hrecord | ⟨-, hout⟩⟩ := record_since hcharged hopens hno
  · have hover := opens_over hreopens hrecord
    rw [checks_window] at hover
    exact ⟨(key, reopened), by simp, rfl, hover⟩
  · exact hout.append _

end Segment

/-- No order of the clock readings refills a budget early: what a decision says is what the
record holds, between two openings no more than the limit is allowed, and the second comes
only once a call of the shard has met the end of the first window. -/
theorem stale_never_refills (limit : U32) (window start : ℕ) (hlimit : 0 < limit.val)
    (hwindow : 0 < window) :
    ∃ limiter, RateLimiter.new limit window start = .ok limiter ∧ ∀ (hash : IpAddr → ℕ),
      (∀ (calls : List (IpAddr × ℕ)) (key : IpAddr) (now : ℕ), ∃ client,
        (limiter.checks hash (calls ++ [(key, now)])).client hash key = some client ∧
        1 ≤ client.requests ∧ client.requests ≤ limit.val ∧
        0 < (limiter.decisionAfter hash calls key now).resetAfter ∧
        (limiter.decisionAfter hash calls key now).resetAfter ≤ window ∧
        (limiter.decisionAfter hash calls key now).remaining = limit.val - client.requests) ∧
      ∀ (before between : List (IpAddr × ℕ)) (key : IpAddr) (opened : ℕ),
        (limiter.checks hash before).opens hash key opened = true →
        NoOpening hash (limiter.checks hash (before ++ [(key, opened)])) key between →
          (∃ client, (limiter.checks hash (before ++ [(key, opened)])).client hash key =
            some client ∧ client.startedAt = opened) ∧
          (limiter.checks hash before).allowedCalls hash key allTimes
            ((key, opened) :: between) ≤ limit.val ∧
          ∀ reopened, (limiter.checks hash (before ++ (key, opened) :: between)).opens hash key
            reopened = true → Outlasted hash window key opened (between ++ [(key, reopened)]) := by
  obtain ⟨limiter, hnew, hfields⟩ := RateLimiter.new_ok hlimit hwindow start
  obtain ⟨rfl, rfl, hshards⟩ := hfields
  refine ⟨limiter, hnew, fun hash => ⟨?_, ?_⟩⟩
  · intro calls key now
    have hdecision := ((@charged_new hash _ _ hshards).checks calls).decision key now
    rwa [← checks_snoc (key, now), checks_limit, checks_window] at hdecision
  · intro before between key opened hopens hno
    have hcharged := (@charged_new hash _ _ hshards).checks before
    rw [checks_append] at hno
    obtain ⟨hle, -⟩ := record_since hcharged hopens hno
    rw [checks_limit] at hle
    refine ⟨?_, hle, fun reopened hreopens => ?_⟩
    · rw [checks_snoc]
      exact ⟨_, client_opening hopens, rfl⟩
    · rw [checks_append] at hreopens
      have hout := outlasted_of_opens hcharged hopens hno hreopens
      rwa [checks_window] at hout

/-- One request a minute: a call whose reading is older than the record does not open a
window, one that comes a minute after the record does. -/
theorem stale_never_refills_back : ∃ limiter,
    RateLimiter.new 1 (Duration.fromMins 1) 0 = .ok limiter ∧
      (limiter.checks (fun _ => 0) []).allowedCalls (fun _ => 0) (.v4 1) allTimes
        [(.v4 1, 5), (.v4 1, 3)] ≤ 1 ∧
      Outlasted (fun _ => 0) (Duration.fromMins 1) (.v4 1) 5
        [(.v4 1, 3), (.v4 1, 5 + Duration.fromMins 1)] := by
  obtain ⟨limiter, hnew, h⟩ := stale_never_refills 1 (Duration.fromMins 1) 0 (by decide) (by decide)
  obtain rfl := Except.ok.inj hnew
  have hsegment := (h (fun _ => 0)).2 [] [(.v4 1, 3)] (.v4 1) 5 rfl
  obtain ⟨-, hle, hout⟩ := hsegment (by
    intro before now after hsplit
    cases before with
    | nil =>
      obtain ⟨⟨-, rfl⟩, rfl⟩ := by simpa using hsplit
      rfl
    | cons call before => simp at hsplit)
  exact ⟨_, rfl, hle, hout (5 + Duration.fromMins 1) rfl⟩

end MojangApi.RateLimit
