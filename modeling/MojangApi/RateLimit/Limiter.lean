import MojangApi.Types

/-! # The per-address rate limiter

`check` locks the shard of an address, so concurrent calls are a sequence of
calls in lock order. The hash that assigns addresses to shards and the parser of
the address header belong to the standard library and are parameters.
-/

namespace MojangApi.RateLimit

abbrev U32 := Fin (2 ^ 32)

def saturatingAdd (a b : ℕ) : ℕ := min (a + b) (2 ^ 32 - 1)

inductive IpAddr where
  | v4 (bits : BitVec 32)
  | v6 (bits : BitVec 128)
  deriving DecidableEq, Repr

def IpAddr.unspecified : IpAddr := .v6 0

abbrev HeaderName := String

/-- A header value is text, or was made from an integer. -/
inductive HeaderValue where
  | text (s : Str)
  | num (n : ℕ)
  deriving DecidableEq, Repr

def cfConnectingIp : HeaderName := "cf-connecting-ip"
def rateLimitLimit : HeaderName := "ratelimit-limit"
def rateLimitPolicy : HeaderName := "ratelimit-policy"
def rateLimitRemaining : HeaderName := "ratelimit-remaining"
def rateLimitReset : HeaderName := "ratelimit-reset"
def retryAfter : HeaderName := "retry-after"
def xContentTypeOptions : HeaderName := "x-content-type-options"
def contentType : HeaderName := "content-type"
def rateLimitShards : ℕ := 32

def isVisibleAscii (c : Char) : Bool := (32 ≤ c.toNat && c.toNat < 127) || c = '\t'

/-- A control character other than the tab is not valid. All bytes beyond ASCII are. -/
def isValid (c : Char) : Bool := (32 ≤ c.toNat && c.toNat ≠ 127) || c = '\t'

def HeaderValue.fromStr (s : Str) : Option HeaderValue :=
  if s.all isValid then some (.text s) else none

def HeaderValue.toStr : HeaderValue → Option Str
  | .text s => if s.all isVisibleAscii then some s else none
  | .num n => some (Nat.toDigits 10 n)

structure ClientWindow where
  startedAt : ℕ
  requests : ℕ
  deriving DecidableEq, Repr

structure RateLimiterState where
  clients : HashMap IpAddr ClientWindow
  lastCleanup : ℕ

structure Decision where
  allowed : Bool
  remaining : ℕ
  resetAfter : ℕ
  deriving DecidableEq, Repr

/-- Only `RateLimiter.new` builds one, and it rejects a zero limit and a zero window. -/
structure RateLimiter where
  limit : U32
  window : ℕ
  shards : Fin rateLimitShards → RateLimiterState
  limitHeader : HeaderValue
  policyHeader : HeaderValue
  limit_pos : 0 < limit.val
  window_pos : 0 < window

inductive RateLimitConfigError where
  | zeroLimit
  | zeroWindow
  | invalidPolicyHeader
  deriving DecidableEq, Repr

/-- The text `{limit};w={seconds}`. -/
def policyText (limit : U32) (window : ℕ) : Str :=
  Nat.toDigits 10 limit.val ++ [';', 'w', '='] ++ Nat.toDigits 10 (Duration.asSecs window)

namespace RateLimiter

/-- Every shard starts empty. -/
def fresh (limit : U32) (window now : ℕ) (policyHeader : HeaderValue) (hl : limit.val ≠ 0)
    (hw : window ≠ 0) : RateLimiter where
  limit := limit
  window := window
  shards := fun _ => { clients := HashMap.empty, lastCleanup := now }
  limitHeader := .num limit.val
  policyHeader := policyHeader
  limit_pos := Nat.pos_of_ne_zero hl
  window_pos := Nat.pos_of_ne_zero hw

def new (limit : U32) (window : ℕ) (now : ℕ) :
    Except RateLimitConfigError RateLimiter :=
  if hl : limit.val = 0 then .error .zeroLimit
  else if hw : window = 0 then .error .zeroWindow
  else match HeaderValue.fromStr (policyText limit window) with
    | none => .error .invalidPolicyHeader
    | some policyHeader => .ok (fresh limit window now policyHeader hl hw)

theorem policyText_valid (limit : U32) (window : ℕ) :
    (policyText limit window).all isValid = true := by
  have digits : ∀ (n : ℕ) (c : Char), c ∈ Nat.toDigits 10 n → isValid c = true := by
    intro n c hc
    have hd := Nat.isDigit_of_mem_toDigits (by decide) (by decide) hc
    simp only [Char.isDigit, Bool.and_eq_true, decide_eq_true_eq] at hd
    have hlo : 48 ≤ c.toNat := hd.1
    have hhi : c.toNat ≤ 57 := hd.2
    simp only [isValid, Bool.or_eq_true, Bool.and_eq_true, decide_eq_true_eq]
    omega
  rw [List.all_eq_true]
  intro c hc
  simp only [policyText, List.mem_append] at hc
  rcases hc with (hc | hc) | hc
  · exact digits _ c hc
  · have hseparator : [';', 'w', '='].all isValid = true := by decide
    exact List.all_eq_true.mp hseparator c hc
  · exact digits _ c hc

/-- A positive limit and a positive window are all that `new` asks for. -/
theorem new_ok {limit : U32} {window : ℕ} (hl : 0 < limit.val) (hw : 0 < window) (now : ℕ) :
    ∃ limiter, new limit window now = .ok limiter ∧ limiter.limit = limit ∧
      limiter.window = window ∧
      ∀ i, limiter.shards i = { clients := HashMap.empty, lastCleanup := now } := by
  have hheader : HeaderValue.fromStr (policyText limit window) =
      some (.text (policyText limit window)) := by
    rw [HeaderValue.fromStr, if_pos (policyText_valid limit window)]
  refine ⟨fresh limit window now (.text (policyText limit window)) (Nat.ne_of_gt hl)
    (Nat.ne_of_gt hw), ?_, rfl, rfl, fun _ => rfl⟩
  rw [new, dif_neg (Nat.ne_of_gt hl), dif_neg (Nat.ne_of_gt hw), hheader]

/-- Drop the records whose window is over, at most once per window. -/
def cleanup (window : ℕ) (now : ℕ) (state : RateLimiterState) : RateLimiterState :=
  if saturatingDurationSince now state.lastCleanup ≥ window then
    { clients := state.clients.retain fun client =>
        saturatingDurationSince now client.startedAt < window
      lastCleanup := now }
  else state

/-- `entry(key).or_insert(..)` followed by the reset of a record whose window is over. -/
def clientAt (window : ℕ) (now : ℕ) (record : Option ClientWindow) : ClientWindow :=
  let client := record.getD ⟨now, 0⟩
  if saturatingDurationSince now client.startedAt ≥ window then ⟨now, 0⟩ else client

def decide (limit : ℕ) (window : ℕ) (now : ℕ) (client : ClientWindow) :
    ClientWindow × Decision :=
  let allowed : Bool := client.requests < limit
  let client :=
    if allowed then { client with requests := saturatingAdd client.requests 1 } else client
  (client,
    { allowed := allowed
      remaining := limit - client.requests
      resetAfter := window - saturatingDurationSince now client.startedAt })

def shardIndex (hash : IpAddr → ℕ) (key : IpAddr) : Fin rateLimitShards :=
  ⟨hash key % rateLimitShards, Nat.mod_lt _ (by decide)⟩

def check (hash : IpAddr → ℕ) (limiter : RateLimiter) (key : IpAddr) (now : ℕ) :
    RateLimiter × Decision :=
  let state := cleanup limiter.window now (limiter.shards (shardIndex hash key))
  let (client, decision) :=
    decide limiter.limit limiter.window now (clientAt limiter.window now (state.clients key))
  let state := { state with clients := state.clients.insert key client }
  ({ limiter with shards := Function.update limiter.shards (shardIndex hash key) state }, decision)

/-- The limiter after a sequence of calls. -/
def checks (hash : IpAddr → ℕ) (limiter : RateLimiter) (calls : List (IpAddr × ℕ)) :
    RateLimiter := calls.foldl (fun limiter call => (check hash limiter call.1 call.2).1) limiter

/-- The record of an address, in the shard that holds it. -/
def client (hash : IpAddr → ℕ) (limiter : RateLimiter) (key : IpAddr) : Option ClientWindow :=
  (limiter.shards (shardIndex hash key)).clients key

end RateLimiter

structure RateLimitResponse where
  error : String
  deriving DecidableEq, Repr

structure Request where
  headers : HashMap HeaderName HeaderValue

structure Response (β : Type*) where
  status : ℕ
  headers : HashMap HeaderName HeaderValue
  body : RateLimitResponse ⊕ β

def Response.withHeader {β : Type*} (r : Response β) (name : HeaderName) (value : HeaderValue) :
    Response β := { r with headers := r.headers.insert name value }

/-- The address a request is counted under. -/
def clientKey (parse : Str → Option IpAddr) (request : Request) : IpAddr :=
  (((request.headers cfConnectingIp).bind HeaderValue.toStr).bind parse).getD .unspecified

def enforceRateLimit {β : Type*} (parse : Str → Option IpAddr) (hash : IpAddr → ℕ)
    (limiter : RateLimiter) (request : Request) (now : ℕ) (next : Request → Response β) :
    RateLimiter × Response β :=
  let (limiter, decision) := limiter.check hash (clientKey parse request) now
  let resetSeconds := max (Duration.asSecs decision.resetAfter) 1
  let resetHeader := HeaderValue.num resetSeconds
  let response :=
    if decision.allowed then next request
    else ⟨429, HashMap.empty.insert contentType (.text "application/json".toList),
      .inl ⟨"Too Many Requests"⟩⟩
  let response := response.withHeader rateLimitLimit limiter.limitHeader
  let response := response.withHeader rateLimitPolicy limiter.policyHeader
  let response := response.withHeader rateLimitRemaining (.num decision.remaining)
  let response := response.withHeader rateLimitReset resetHeader
  let response := response.withHeader xContentTypeOptions (.text "nosniff".toList)
  let response :=
    if !decision.allowed then response.withHeader retryAfter resetHeader else response
  (limiter, response)

end MojangApi.RateLimit
