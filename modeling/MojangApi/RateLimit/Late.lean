import MojangApi.RateLimit.Stale

/-! # Calls that come late

Between its reading of the clock and its check a call waits for the lock of its shard.
In any order of the readings, a decision says what is left of the record that the last
opening made. If no call waits for long, the openings of a client are nearly a window
apart, which bounds what it gets in all.
-/

namespace MojangApi.RateLimit
open Library

variable {hash : IpAddr → ℕ} {limiter : RateLimiter} {key : IpAddr} {now : ℕ}
  {calls : List (IpAddr × ℕ)}

section Openings

/-- The first call of the second part opened a window, which none of the others did. -/
def OpenedIn (hash : IpAddr → ℕ) (limiter : RateLimiter) (key : IpAddr)
    (before : List (IpAddr × ℕ)) (opened : ℕ) (between : List (IpAddr × ℕ)) : Prop :=
  (limiter.checks hash before).opens hash key opened = true ∧
    NoOpening hash (limiter.checks hash (before ++ [(key, opened)])) key between

theorem NoOpening.snoc (h : NoOpening hash limiter key calls) {call : IpAddr × ℕ}
    (hcall : call.1 = key → (limiter.checks hash calls).opens hash key call.2 = false) :
    NoOpening hash limiter key (calls ++ [call]) := by
  intro before now after hsplit
  rcases List.eq_nil_or_concat after with rfl | ⟨init, last, rfl⟩
  · obtain ⟨rfl, hlast⟩ := List.append_inj' hsplit rfl
    obtain rfl := List.singleton_inj.mp hlast
    exact hcall rfl
  · rw [List.concat_eq_append, ← List.cons_append, ← List.append_assoc] at hsplit
    exact h before now init (List.append_inj' hsplit rfl).1

/-- Without an opening there is no record. -/
theorem NoOpening.client_none (h : NoOpening hash limiter key calls)
    (hnone : limiter.client hash key = none) : (limiter.checks hash calls).client hash key = none := by
  induction calls using List.reverseRecOn with
  | nil => exact hnone
  | append_singleton calls call ih =>
    have hbefore := ih h.init
    obtain ⟨k, now⟩ := call
    rw [checks_snoc]
    by_cases hk : k = key
    · subst hk
      rw [clientAt_open h.last] at hbefore
      cases hbefore
    · rcases client_check_ne hash (limiter.checks hash calls) now (Ne.symm hk) with hc | ⟨-, hc⟩
      · exact hc.trans hbefore
      · rw [hc, hbefore]
        rfl

/-- A run is split where a client's last window was opened, if any was. -/
theorem last_opening (hash : IpAddr → ℕ) (limiter : RateLimiter) (key : IpAddr)
    (calls : List (IpAddr × ℕ)) : NoOpening hash limiter key calls ∨
    ∃ before opened between, calls = before ++ (key, opened) :: between ∧
      OpenedIn hash limiter key before opened between := by
  induction calls using List.reverseRecOn with
  | nil => exact .inl fun before now after hsplit => by simp at hsplit
  | append_singleton calls call ih =>
    by_cases hopens : call.1 = key ∧ (limiter.checks hash calls).opens hash key call.2 = true
    · obtain ⟨rfl, hopens⟩ := hopens
      exact .inr ⟨calls, call.2, [], rfl, hopens, fun before now after hsplit => by
        simp at hsplit⟩
    · have hkept : call.1 = key → (limiter.checks hash calls).opens hash key call.2 = false :=
        fun hk => Bool.eq_false_iff.mpr fun h => hopens ⟨hk, h⟩
      rcases ih with hno | ⟨before, opened, between, rfl, hopened, hno⟩
      · exact .inl (hno.snoc hkept)
      · refine .inr ⟨before, opened, between ++ [call], by simp, hopened, hno.snoc ?_⟩
        rwa [← checks_append, ← List.append_cons]

/-- What a decision tells is left, and what was allowed since the window was opened, make up
the limit, in whatever order the readings came. -/
theorem remaining_since (hcharged : Charged hash limiter) (hnone : limiter.client hash key = none)
    (calls : List (IpAddr × ℕ)) (now : ℕ) : ∃ before opened between,
      calls ++ [(key, now)] = before ++ (key, opened) :: between ∧
        OpenedIn hash limiter key before opened between ∧
        (limiter.decisionAfter hash calls key now).remaining +
          (limiter.checks hash before).allowedCalls hash key allTimes
            ((key, opened) :: between) = limiter.limit := by
  rcases last_opening hash limiter key (calls ++ [(key, now)])
    with hno | ⟨before, opened, between, hsplit, hopened, hno⟩
  · have hrecord := hno.init.client_none hnone
    rw [clientAt_open hno.last] at hrecord
    cases hrecord
  · refine ⟨before, opened, between, hsplit, ⟨hopened, hno⟩, ?_⟩
    obtain ⟨client, hclient, -, hused, -, -, hremaining⟩ := (hcharged.checks calls).decision key now
    rw [checks_append] at hno
    obtain ⟨-, hcounts⟩ := record_since (hcharged.checks before) hopened hno
    rw [Counts, ← checks_append, ← hsplit, checks_snoc, hclient] at hcounts
    rcases hcounts with hrecord | ⟨hrecord, -⟩
    · obtain rfl := Option.some.inj hrecord
      rw [checks_limit] at hused hremaining
      rw [RateLimiter.decisionAfter, hremaining]
      exact Nat.sub_add_cancel hused
    · cases hrecord

end Openings

section Pace
variable {late checked reading allowed : ℕ}

/-- What a client was allowed fits into the windows it has opened, which are nearly a window
apart: those that are over, and the one on record. -/
inductive Paced (hash : IpAddr → ℕ) (limiter : RateLimiter) (key : IpAddr)
    (late now allowed : ℕ) : Prop
  | idle (windows : ℕ) (hnone : limiter.client hash key = none)
      (hallowed : allowed ≤ limiter.limit * windows)
      (hopened : windows * (limiter.window - late) ≤ now - late) :
      Paced hash limiter key late now allowed
  | active (windows : ℕ) (client : ClientWindow) (hclient : limiter.client hash key = some client)
      (hallowed : allowed ≤ limiter.limit * windows + client.requests)
      (hopened : windows * (limiter.window - late) ≤ client.startedAt)
      (hstarted : client.startedAt ≤ now) :
      Paced hash limiter key late now allowed

theorem Paced.later (h : Paced hash limiter key late now allowed) (hnow : now ≤ checked) :
    Paced hash limiter key late checked allowed := by
  rcases h with ⟨windows, hnone, hallowed, hopened⟩ |
    ⟨windows, client, hclient, hallowed, hopened, hstarted⟩
  · exact .idle windows hnone hallowed (hopened.trans (Nat.sub_le_sub_right hnow late))
  · exact .active windows client hclient hallowed hopened (hstarted.trans hnow)

/-- A window that is over counts like one of those before. -/
theorem succ_windows {limit windows window requests started : ℕ} (hrequests : requests ≤ limit)
    (hopened : windows * (window - late) ≤ started) :
    limit * windows + requests ≤ limit * (windows + 1) ∧
      (windows + 1) * (window - late) ≤ started + (window - late) := by
  constructor
  · rw [Nat.mul_succ]
    exact Nat.add_le_add_left hrequests _
  · rw [Nat.succ_mul]
    exact Nat.add_le_add_right hopened _

/-- The client's own call is charged to the record, or to a window that it opens. -/
theorem Paced.own (h : Paced hash limiter key late now allowed) (hcharged : Charged hash limiter)
    (hnow : now ≤ checked) (hread : reading ≤ checked) (hlate : checked ≤ reading + late) :
    Paced hash (limiter.check hash key reading).1 key late checked
      (allowed + if (limiter.check hash key reading).2.allowed then 1 else 0) := by
  cases hopens : limiter.opens hash key reading with
  | true =>
    have hclient := client_opening hopens
    rw [← List.nil_append [(key, reading)], allowedCalls_snoc_self] at hclient
    change _ = some (ClientWindow.mk reading
      (0 + if (limiter.check hash key reading).2.allowed then 1 else 0)) at hclient
    rw [Nat.zero_add] at hclient
    rcases h with ⟨windows, -, hallowed, hopened⟩ |
      ⟨windows, client, hrecord, hallowed, hopened, -⟩
    · refine .active windows _ hclient (Nat.add_le_add_right hallowed _) ?_ hread
      exact hopened.trans (Nat.sub_le_iff_le_add.mpr (hnow.trans hlate))
    · have hover := opens_over hopens hrecord
      obtain ⟨hsum, hstart⟩ := succ_windows (hcharged key client hrecord).2 hopened
      refine .active (windows + 1) _ hclient (Nat.add_le_add_right (hallowed.trans hsum) _) ?_ hread
      exact (hstart.trans (Nat.add_le_add_left (Nat.sub_le _ _) _)).trans hover
  | false =>
    have hrecord := clientAt_open hopens
    rcases h with ⟨windows, hnone, -, -⟩ | ⟨windows, client, hclient, hallowed, hopened, hstarted⟩
    · cases hrecord.symm.trans hnone
    · refine .active windows _ (client_counting hopens hclient) ?_ hopened (hstarted.trans hnow)
      rw [← Nat.add_assoc]
      exact Nat.add_le_add_right hallowed _

/-- The call of another client may remove the record, once its window is over. -/
theorem Paced.other (h : Paced hash limiter key late now allowed) (hcharged : Charged hash limiter)
    (hshort : late < limiter.window) (hnow : now ≤ checked) (hread : reading ≤ checked)
    {k : IpAddr} (hk : k ≠ key) :
    Paced hash (limiter.check hash k reading).1 key late checked allowed := by
  have hlater := h.later hnow
  rcases client_check_ne hash limiter reading (Ne.symm hk) with hc | ⟨-, hc⟩
  · rcases hlater with ⟨windows, hnone, hallowed, hopened⟩ |
      ⟨windows, client, hclient, hallowed, hopened, hstarted⟩
    · exact .idle windows (hc.trans hnone) hallowed hopened
    · exact .active windows client (hc.trans hclient) hallowed hopened hstarted
  · rcases hlater with ⟨windows, hnone, hallowed, hopened⟩ |
      ⟨windows, client, hclient, hallowed, hopened, hstarted⟩
    · exact .idle windows (by rw [hc, hnone]; rfl) hallowed hopened
    · rw [hclient, Option.filter_some] at hc
      by_cases hopen : saturatingDurationSince reading client.startedAt < limiter.window
      · rw [if_pos (by simpa using hopen)] at hc
        exact .active windows client hc hallowed hopened hstarted
      · rw [if_neg (by simpa using hopen)] at hc
        rw [saturatingDurationSince_lt limiter.window_pos, Nat.not_lt] at hopen
        obtain ⟨hsum, hstart⟩ := succ_windows (hcharged key client hclient).2 hopened
        exact .idle (windows + 1) hc (hallowed.trans hsum) (hstart.trans (by omega))

theorem Paced.le (h : Paced hash limiter key late now allowed) (hcharged : Charged hash limiter)
    (hshort : late < limiter.window) :
    allowed ≤ limiter.limit * (now / (limiter.window - late) + 1) := by
  have hpace : 0 < limiter.window - late := Nat.sub_pos_of_lt hshort
  rcases h with ⟨windows, -, hallowed, hopened⟩ |
    ⟨windows, client, hclient, hallowed, hopened, hstarted⟩
  · have hwindows := (Nat.le_div_iff_mul_le hpace).mpr (hopened.trans (Nat.sub_le now late))
    exact hallowed.trans (Nat.mul_le_mul_left _ (hwindows.trans (Nat.le_succ _)))
  · have hwindows := (Nat.le_div_iff_mul_le hpace).mpr (hopened.trans hstarted)
    have hsum := (succ_windows (hcharged key client hclient).2 hopened).1
    exact (hallowed.trans hsum).trans (Nat.mul_le_mul_left _ (Nat.succ_le_succ hwindows))

end Pace
end MojangApi.RateLimit
