import MojangApi.Library.Lists
import MojangApi.RateLimit.Reference

/-! # What `Retry-After` promises

The header carries the whole seconds left in the client's window, rounded down
and then raised to at least one. A client that waits exactly that long is let
in when nothing was lost to rounding, and only then.
-/

namespace MojangApi.RateLimit
open Library

variable {β : Type*} (parse : Str → Option IpAddr) (hash : IpAddr → ℕ)

/-- The limiter after a history of requests, each with the clock reading it was checked at. -/
def serves (limiter : RateLimiter) (history : List (Request × ℕ)) : RateLimiter :=
  history.foldl (fun limiter call => (limiter.check hash (clientKey parse call.1) call.2).1) limiter

/-- Whether the middleware hands the request on. -/
def admits (limiter : RateLimiter) (request : Request) (now : ℕ) : Bool :=
  (limiter.check hash (clientKey parse request) now).2.allowed

/-- What is left of the client's window before the call, as the limiter has recorded it. -/
def timeLeft (limiter : RateLimiter) (request : Request) (now : ℕ) : ℕ :=
  (limiter.client hash (clientKey parse request)).elim 0 fun client =>
    client.startedAt + limiter.window - now

section Middleware
variable {parse hash} {limiter : RateLimiter} {request : Request} {now : ℕ}
  {next : Request → Response β}

theorem enforce_admitted (h : admits parse hash limiter request now = true) :
    (enforceRateLimit parse hash limiter request now next).2.status = (next request).status ∧
      (enforceRateLimit parse hash limiter request now next).2.body = (next request).body := by
  unfold admits at h
  simp [enforceRateLimit, h, Response.withHeader]

/-- A denied request is never handed on, whatever the rest of the application does. -/
theorem enforce_denied (h : admits parse hash limiter request now = false) :
    (enforceRateLimit parse hash limiter request now next).2.status = 429 ∧
      (enforceRateLimit parse hash limiter request now next).2.body =
        .inl ⟨"Too Many Requests"⟩ := by
  unfold admits at h
  simp [enforceRateLimit, h, Response.withHeader]

/-- Both headers of a denied request carry the same number of seconds. -/
theorem enforce_denied_headers (next : Request → Response β)
    (h : admits parse hash limiter request now = false) :
    (enforceRateLimit parse hash limiter request now next).2.headers retryAfter =
      some (.num (max (Duration.asSecs
        (limiter.check hash (clientKey parse request) now).2.resetAfter) 1)) ∧
    (enforceRateLimit parse hash limiter request now next).2.headers rateLimitReset =
      some (.num (max (Duration.asSecs
        (limiter.check hash (clientKey parse request) now).2.resetAfter) 1)) := by
  unfold admits at h
  have hreset : rateLimitReset ≠ retryAfter := by decide
  have hsniff : rateLimitReset ≠ xContentTypeOptions := by decide
  simp [enforceRateLimit, h, Response.withHeader, HashMap.insert_of_ne _ _ hreset,
    HashMap.insert_of_ne _ _ hsniff]

end Middleware

/-- The addresses and times a history is counted under. -/
def counted (history : List (Request × ℕ)) : List (IpAddr × ℕ) :=
  history.map fun call => (clientKey parse call.1, call.2)

section History
variable {parse hash} {limiter : RateLimiter}

theorem serves_eq (history : List (Request × ℕ)) :
    serves parse hash limiter history = limiter.checks hash (counted parse history) := by
  rw [serves, RateLimiter.checks, counted, List.foldl_map]

theorem counted_times (parse : Str → Option IpAddr) (history : List (Request × ℕ)) :
    (counted parse history).map Prod.snd = history.map Prod.snd := by
  simp [counted]

theorem counted_append (l l' : List (Request × ℕ)) :
    counted parse (l ++ l') = counted parse l ++ counted parse l' := List.map_append

theorem ownCalls_others {key : IpAddr} {others : List (Request × ℕ)}
    (h : ∀ call ∈ others, clientKey parse call.1 ≠ key) :
    ownCalls key (counted parse others) = [] := by
  rw [ownCalls, List.map_eq_nil_iff, List.filter_eq_nil_iff]
  intro call hcall
  obtain ⟨request, hmem, rfl⟩ := List.mem_map.mp hcall
  simpa using h request hmem

/-- Admission after a history, read off the reference window of the client. -/
theorem serves_decision (parse : Str → Option IpAddr) (hnew : ∀ now, Tracks hash limiter [] now)
    {history : List (Request × ℕ)}
    {request : Request} {now : ℕ}
    (hmono : ((history ++ [(request, now)]).map Prod.snd).Pairwise (· ≤ ·)) :
    ((serves parse hash limiter history).check hash (clientKey parse request) now).2.toVerdict =
      (FixedWindow.serve limiter.limit limiter.window
        (reference limiter (counted parse history) (clientKey parse request)) now).2 := by
  rw [← counted_times parse, counted_append] at hmono
  rw [serves_eq]
  exact decision_eq_reference hnew hmono

/-- A window that is still open is on record, so the time left is what is left of it. -/
theorem timeLeft_of_reference (hnew : ∀ now, Tracks hash limiter [] now)
    {history : List (Request × ℕ)} {request : Request} {now : ℕ} {v : FixedWindow.Window}
    (hmono : ((history ++ [(request, now)]).map Prod.snd).Pairwise (· ≤ ·))
    (hv : reference limiter (counted parse history) (clientKey parse request) = some v)
    (hopen : now < v.start + limiter.window) :
    timeLeft parse hash (serves parse hash limiter history) request now =
      v.start + limiter.window - now := by
  rw [← counted_times parse, counted_append, List.map_append, List.pairwise_append] at hmono
  have hle : ∀ c ∈ counted parse history, c.2 ≤ now := fun c hc =>
    hmono.2.2 c.2 (List.mem_map_of_mem hc) now (by simp [counted])
  have hagree := (tracks_checks hnew hmono.1 hle).agree (clientKey parse request)
  rw [reference_checks, hv, checks_window] at hagree
  -- the limiter cannot have dropped the record of an open window
  rcases hagree with hrecord | ⟨_, w, hw, hover⟩
  · obtain ⟨c, hc, rfl⟩ := Option.map_eq_some_iff.mp hrecord
    simp [timeLeft, serves_eq, hc, ClientWindow.toWindow]
  · obtain rfl := Option.some.inj hw
    exact absurd hopen (Nat.not_lt.mpr hover)

/-- A denied client is in a used-up window that the limiter has on record. -/
theorem denied_record (hnew : ∀ now, Tracks hash limiter [] now) {history : List (Request × ℕ)}
    {request : Request} {now : ℕ}
    (hmono : ((history ++ [(request, now)]).map Prod.snd).Pairwise (· ≤ ·))
    (hdenied : admits parse hash (serves parse hash limiter history) request now = false) :
    ∃ v : FixedWindow.Window,
      reference limiter (counted parse (history ++ [(request, now)])) (clientKey parse request) =
        some v ∧
      limiter.limit ≤ v.used ∧
      ((serves parse hash limiter history).check hash (clientKey parse request) now).2.resetAfter =
        v.start + limiter.window - now ∧
      timeLeft parse hash (serves parse hash limiter history) request now =
        v.start + limiter.window - now := by
  have hdecision := serves_decision parse hnew hmono
  have hallowed : (FixedWindow.serve limiter.limit limiter.window
      (reference limiter (counted parse history) (clientKey parse request)) now).2.allowed =
        false := by
    rw [← hdecision]
    exact hdenied
  obtain ⟨v, hv, hfull, hopen, hserve⟩ := FixedWindow.serve_denied limiter.limit_pos hallowed
  refine ⟨v, ?_, hfull, ?_, timeLeft_of_reference hnew hmono hv hopen⟩
  · rw [counted_append, reference]
    change FixedWindow.run _ _ (ownCalls _ (_ ++ [(clientKey parse request, now)])) = _
    rw [ownCalls_snoc_self, FixedWindow.run_snoc]
    exact congrArg (fun p => some p.1) hserve
  · exact congrArg FixedWindow.Verdict.resetAfter (hdecision.trans (congrArg Prod.snd hserve))

end History

/-- Waiting `seconds` gets the client's next request in, whoever else calls meanwhile. -/
def WaitIsEnough (limiter : RateLimiter) (request : Request) (now seconds : ℕ) : Prop :=
  ∀ (others : List (Request × ℕ)) (again : Request) (later : ℕ),
    (∀ call ∈ others, clientKey parse call.1 ≠ clientKey parse request) →
    clientKey parse again = clientKey parse request →
    (((request, now) :: others ++ [(again, later)]).map Prod.snd).Pairwise (· ≤ ·) →
    now + Duration.fromSecs seconds ≤ later →
    admits parse hash (serves parse hash limiter ((request, now) :: others)) again later = true

theorem serves_append (limiter : RateLimiter) (l l' : List (Request × ℕ)) :
    serves parse hash (serves parse hash limiter l) l' = serves parse hash limiter (l ++ l') := by
  simp [serves]

/-- Rounding down loses nothing exactly below one second and at whole seconds. -/
theorem le_seconds_iff (left : ℕ) : left ≤ Duration.fromSecs (max (Duration.asSecs left) 1) ↔
    left < Duration.fromSecs 1 ∨ Duration.fromSecs 1 ∣ left := by
  unfold Duration.fromSecs Duration.asSecs
  omega

section Wait
variable {parse hash} {limiter : RateLimiter}

/-- The client's next call, at whatever time, meets the window it was denied in. -/
theorem next_admitted_iff (hnew : ∀ now, Tracks hash limiter [] now)
    {history others : List (Request × ℕ)} {request again : Request} {now later : ℕ}
    {v : FixedWindow.Window}
    (hv : reference limiter (counted parse (history ++ [(request, now)]))
      (clientKey parse request) = some v) (hfull : limiter.limit ≤ v.used)
    (hmono : ((history ++ [(request, now)]).map Prod.snd).Pairwise (· ≤ ·))
    (hothers : ∀ call ∈ others, clientKey parse call.1 ≠ clientKey parse request)
    (hagain : clientKey parse again = clientKey parse request)
    (htimes : (((request, now) :: others ++ [(again, later)]).map Prod.snd).Pairwise (· ≤ ·)) :
    admits parse hash (serves parse hash (serves parse hash limiter history)
      ((request, now) :: others)) again later = true ↔ v.start + limiter.window ≤ later := by
  have hall : (((history ++ (request, now) :: others) ++ [(again, later)]).map
      Prod.snd).Pairwise (· ≤ ·) := by
    simp only [List.map_append, List.map_cons, List.map_nil, List.append_assoc,
      List.cons_append] at hmono htimes ⊢
    exact pairwise_join hmono htimes
  have hkept : reference limiter (counted parse (history ++ (request, now) :: others))
      (clientKey parse again) = some v := by
    rw [hagain, ← hv, List.append_cons, counted_append, reference, ownCalls_append,
      ownCalls_others hothers, List.append_nil, reference]
  have hdecision := congrArg FixedWindow.Verdict.allowed (serves_decision parse hnew hall)
  rw [serves_append, ← FixedWindow.serve_full_allowed limiter.limit_pos hfull, ← hkept,
    ← hdecision]
  rfl

theorem waitIsEnough_iff (hnew : ∀ now, Tracks hash limiter [] now)
    {history : List (Request × ℕ)} {request : Request} {now : ℕ}
    (hmono : ((history ++ [(request, now)]).map Prod.snd).Pairwise (· ≤ ·)) (seconds : ℕ)
    (hdenied : admits parse hash (serves parse hash limiter history) request now = false) :
    WaitIsEnough parse hash (serves parse hash limiter history) request now seconds ↔
      timeLeft parse hash (serves parse hash limiter history) request now ≤
        Duration.fromSecs seconds := by
  obtain ⟨v, hv, hfull, -, hleft⟩ := denied_record hnew hmono hdenied
  rw [hleft]
  constructor
  · intro h
    have hlater : (([(request, now)] ++ [(request, now + Duration.fromSecs seconds)]).map
        Prod.snd).Pairwise (· ≤ ·) := by simp
    have hnone : ∀ call ∈ ([] : List (Request × ℕ)),
        clientKey parse call.1 ≠ clientKey parse request := by simp
    have hin := h [] request (now + Duration.fromSecs seconds) hnone rfl hlater (Nat.le_refl _)
    rw [next_admitted_iff hnew hv hfull hmono hnone rfl hlater] at hin
    omega
  · intro h others again later hothers hagain htimes hwait
    rw [next_admitted_iff hnew hv hfull hmono hothers hagain htimes]
    omega

end Wait

/-- A client that waits for the advertised number of seconds is let in exactly when less
than a second, or a whole number of seconds, was left of its window. -/
theorem retryAfter_enough_iff (limit : U32) (window start : ℕ) (hlimit : 0 < limit.val)
    (hwindow : 0 < window) :
    ∃ limiter, RateLimiter.new limit window start = .ok limiter ∧
      ∀ (parse : Str → Option IpAddr) (hash : IpAddr → ℕ) (history : List (Request × ℕ))
        (request : Request) (now : ℕ) (next : Request → Response β),
        ((history ++ [(request, now)]).map Prod.snd).Pairwise (· ≤ ·) →
        admits parse hash (serves parse hash limiter history) request now = false →
          ∃ seconds,
            (enforceRateLimit parse hash (serves parse hash limiter history) request now
              next).2.headers retryAfter = some (.num seconds) ∧
            (enforceRateLimit parse hash (serves parse hash limiter history) request now
              next).2.headers rateLimitReset = some (.num seconds) ∧
            (WaitIsEnough parse hash (serves parse hash limiter history) request now seconds ↔
              timeLeft parse hash (serves parse hash limiter history) request now <
                  Duration.fromSecs 1 ∨
                Duration.fromSecs 1 ∣
                  timeLeft parse hash (serves parse hash limiter history) request now) := by
  obtain ⟨limiter, hnew, hfields⟩ := RateLimiter.new_ok hlimit hwindow start
  refine ⟨limiter, hnew, ?_⟩
  intro parse hash history request now next hmono hdenied
  have htracks := tracks_new hash hfields
  obtain ⟨v, -, -, hreset, hleft⟩ := denied_record htracks hmono hdenied
  obtain ⟨hretry, hresetHeader⟩ := enforce_denied_headers next hdenied
  refine ⟨_, hretry, hresetHeader, ?_⟩
  rw [waitIsEnough_iff htracks hmono _ hdenied, hreset, ← hleft, le_seconds_iff]

/-- The request of a client whose address did not come with it. -/
def plainRequest : Request := ⟨HashMap.empty⟩

def noContent (_ : Request) : Response Unit := ⟨204, HashMap.empty, .inr ()⟩

/-- One request a minute: a client denied after a second is let in when it waits. -/
theorem retryAfter_enough_whole : ∃ limiter,
    RateLimiter.new 1 (Duration.fromSecs 60) 0 = .ok limiter ∧
      (enforceRateLimit (fun _ => none) (fun _ => 0) (serves (fun _ => none) (fun _ => 0) limiter
        [(plainRequest, 0)]) plainRequest 1000000000 noContent).2.headers retryAfter =
          some (.num 59) ∧
      WaitIsEnough (fun _ => none) (fun _ => 0) (serves (fun _ => none) (fun _ => 0) limiter
        [(plainRequest, 0)]) plainRequest 1000000000 59 := by
  obtain ⟨limiter, hnew, h⟩ :=
    retryAfter_enough_iff (β := Unit) 1 (Duration.fromSecs 60) 0 (by decide) (by decide)
  obtain rfl := Except.ok.inj hnew
  obtain ⟨seconds, hretry, -, hiff⟩ := h (fun _ => none) (fun _ => 0) [(plainRequest, 0)]
    plainRequest 1000000000 noContent (by decide) (by rfl)
  refine ⟨_, rfl, ?_⟩
  have h59 : seconds = 59 := by
    have : some (HeaderValue.num 59) = some (.num seconds) := hretry
    simpa using this.symm
  subst h59
  exact ⟨hretry, hiff.mpr (.inr (by decide))⟩

/-- Denied a tenth of a second into its minute, the client is told 59 seconds, and is
denied again after exactly 59 seconds. -/
theorem retryAfter_not_enough : ∃ limiter,
    RateLimiter.new 1 (Duration.fromSecs 60) 0 = .ok limiter ∧
      admits (fun _ => none) (fun _ => 0) (serves (fun _ => none) (fun _ => 0) limiter
        [(plainRequest, 0)]) plainRequest 100000000 = false ∧
      (enforceRateLimit (fun _ => none) (fun _ => 0) (serves (fun _ => none) (fun _ => 0) limiter
        [(plainRequest, 0)]) plainRequest 100000000 noContent).2.headers retryAfter =
          some (.num 59) ∧
      ¬ WaitIsEnough (fun _ => none) (fun _ => 0) (serves (fun _ => none) (fun _ => 0) limiter
        [(plainRequest, 0)]) plainRequest 100000000 59 := by
  refine ⟨_, rfl, rfl, rfl, ?_⟩
  intro h
  have hin := h [] plainRequest 59100000000 (by simp) rfl (by decide) (by decide)
  exact absurd hin (by decide)

end MojangApi.RateLimit
