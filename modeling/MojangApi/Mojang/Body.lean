import MojangApi.Mojang.Client
import Mathlib.Data.List.Infix

/-! # The body is read whole or not at all

The buffer is at every moment what has come so far, cut off before the first
chunk that would take it beyond the limit.
-/

namespace MojangApi.Mojang

variable {body : BytesMut} {chunk : Bytes} {chunks : List Bytes} {limit : ℕ}

theorem checkedAdd_exact {a b sum : ℕ} (h : sum ∈ checkedAdd a b) : sum = a + b := by
  unfold checkedAdd at h
  split at h
  · exact (Option.some.inj h).symm
  · cases h

/-- No sum that fits is lost: one that does not fit is beyond every limit that does. -/
theorem tryExtendBody_eq (hlimit : limit < 2 ^ 64) : tryExtendBody body chunk limit =
    if body.bytes.length + chunk.length ≤ limit
      then ({ body with bytes := body.bytes ++ chunk }, true) else (body, false) := by
  unfold tryExtendBody checkedAdd
  by_cases hfits : body.bytes.length + chunk.length < 2 ^ 64
  · rw [if_pos hfits]
    by_cases hle : body.bytes.length + chunk.length ≤ limit
    · simp [hle, Nat.not_lt.mpr hle]
    · simp [hle, Nat.not_le.mp hle]
  · have hle : ¬ body.bytes.length + chunk.length ≤ limit := by omega
    rw [if_neg hfits, if_neg hle]
    rfl

theorem maxUpstreamResponseBytes_lt : maxUpstreamResponseBytes < 2 ^ 64 := by decide

/-- A chunk that is not taken leaves the buffer as it was. -/
theorem tryExtendBody_rejected (h : (tryExtendBody body chunk limit).2 = false) :
    (tryExtendBody body chunk limit).1 = body := by
  unfold tryExtendBody at h ⊢
  split at h
  · rename_i hover
    rw [if_pos hover]
  · contradiction

/-- Chunks that fit together are taken, all of them and in their order. -/
theorem accumulate_fits (h : (body.bytes ++ chunks.flatten).length ≤ maxUpstreamResponseBytes) :
    accumulate body chunks = ({ body with bytes := body.bytes ++ chunks.flatten }, true) := by
  induction chunks generalizing body with
  | nil => simp [accumulate]
  | cons chunk chunks ih =>
    rw [List.flatten_cons, ← List.append_assoc] at h
    have hchunk : body.bytes.length + chunk.length ≤ maxUpstreamResponseBytes := by
      simp only [List.length_append] at h
      omega
    rw [accumulate, tryExtendBody_eq maxUpstreamResponseBytes_lt, if_pos hchunk, List.flatten_cons,
      ← List.append_assoc]
    exact ih h

/-- Of chunks that do not fit together, one is rejected. -/
theorem accumulate_over (hbody : body.bytes.length ≤ maxUpstreamResponseBytes)
    (h : maxUpstreamResponseBytes < (body.bytes ++ chunks.flatten).length) :
    (accumulate body chunks).2 = false := by
  induction chunks generalizing body with
  | nil =>
    rw [List.flatten_nil, List.append_nil] at h
    omega
  | cons chunk chunks ih =>
    rw [accumulate, tryExtendBody_eq maxUpstreamResponseBytes_lt]
    by_cases hchunk : body.bytes.length + chunk.length ≤ maxUpstreamResponseBytes
    · rw [if_pos hchunk]
      apply ih (by simpa using hchunk)
      rwa [List.flatten_cons, ← List.append_assoc] at h
    · rw [if_neg hchunk]

/-- The buffer never holds anything but the beginning of the body, and never too much. -/
theorem accumulate_prefix (body : BytesMut) (chunks : List Bytes)
    (hbody : body.bytes.length ≤ maxUpstreamResponseBytes) :
    (accumulate body chunks).1.bytes <+: body.bytes ++ chunks.flatten ∧
      (accumulate body chunks).1.bytes.length ≤ maxUpstreamResponseBytes := by
  induction chunks generalizing body with
  | nil => simpa [accumulate] using hbody
  | cons chunk chunks ih =>
    rw [accumulate, tryExtendBody_eq maxUpstreamResponseBytes_lt]
    by_cases hfits : body.bytes.length + chunk.length ≤ maxUpstreamResponseBytes
    · rw [if_pos hfits]
      have hrest := ih { body with bytes := body.bytes ++ chunk } (by simpa using hfits)
      simpa only [List.append_assoc, List.flatten_cons] using hrest
    · rw [if_neg hfits]
      exact ⟨List.prefix_append _ _, hbody⟩

/-- A declared length and a body that are within the limit. -/
def WithinLimit (contentLength : Option ℕ) (body : Bytes) : Prop :=
  (∀ length ∈ contentLength, length ≤ maxUpstreamResponseBytes) ∧
    body.length ≤ maxUpstreamResponseBytes

instance (contentLength : Option ℕ) (body : Bytes) : Decidable (WithinLimit contentLength body) :=
  inferInstanceAs (Decidable (_ ∧ _))

section Send
variable {status : ℕ} {contentLength : Option ℕ} {metrics : Metrics}

theorem readBody_fits (capacity : ℕ) (h : chunks.flatten.length ≤ maxUpstreamResponseBytes) :
    readBody chunks none { capacity := capacity } = pure chunks.flatten := by
  have hall : accumulate { capacity := capacity } chunks =
      ({ capacity := capacity, bytes := chunks.flatten }, true) := accumulate_fits h
  unfold readBody
  rw [hall]

theorem readBody_over (capacity : ℕ) (h : maxUpstreamResponseBytes < chunks.flatten.length)
    (failure : Option Bool) :
    readBody chunks failure { capacity := capacity } = recordInvalidResponse := by
  have hover : accumulate { capacity := capacity } chunks =
      ((accumulate { capacity := capacity } chunks).1, false) :=
    Prod.ext rfl (accumulate_over (Nat.zero_le _) h)
  unfold readBody
  rw [hover]

theorem declared_within (h : ∀ length ∈ contentLength, length ≤ maxUpstreamResponseBytes) :
    (contentLength.any fun length => maxUpstreamResponseBytes < length) = false := by
  cases contentLength with
  | none => rfl
  | some length => simpa using h length rfl

theorem sendFinish_within (h : WithinLimit contentLength chunks.flatten) :
    sendFinish (.responded status contentLength chunks none) =
      modify (fun metrics => metrics.recordMojangResponse chunks.flatten.length) >>= fun _ =>
        pure (status, chunks.flatten) := by
  rw [sendFinish, declared_within h.1, readBody_fits _ h.2]
  rfl

theorem sendFinish_beyond (h : ¬ WithinLimit contentLength chunks.flatten)
    (failure : Option Bool) :
    sendFinish (.responded status contentLength chunks failure) = recordInvalidResponse := by
  rw [sendFinish]
  split
  · rfl
  · rename_i hdeclared
    have hover : maxUpstreamResponseBytes < chunks.flatten.length := by
      rw [← Nat.not_le]
      intro hbody
      refine h ⟨fun length hlength => ?_, hbody⟩
      obtain rfl := Option.mem_def.mp hlength
      simpa using hdeclared
    rw [readBody_over _ hover]
    rfl

/-- A body that breaks off is never returned. -/
theorem sendFinish_broken (status : ℕ) (contentLength : Option ℕ) (chunks : List Bytes)
    (timeout : Bool) :
    sendFinish (.responded status contentLength chunks (some timeout)) = recordInvalidResponse ∨
      sendFinish (.responded status contentLength chunks (some timeout)) =
        transportError timeout := by
  rw [sendFinish]
  split
  · exact .inl rfl
  · unfold readBody
    split
    · exact .inl rfl
    · rename_i heq
      obtain rfl := Option.some.inj heq
      exact .inr rfl
    · contradiction

end Send

/-- The buffer of `send` once some chunks have come. -/
def bufferAfter (contentLength : Option ℕ) (arrived : List Bytes) : BytesMut :=
  (accumulate { capacity := initialCapacity contentLength } arrived).1

/-- A body that comes without a failure is returned whole, or rejected for its size. On the way
the buffer stays within the limit, and its length is never computed wrongly: with a chunk that
can exist in memory the sum even fits. -/
theorem body_whole_or_rejected (status : ℕ) (contentLength : Option ℕ) (chunks : List Bytes)
    (metrics : Metrics) :
    ((sendFinish (.responded status contentLength chunks none)).run.run metrics).1 =
        (if WithinLimit contentLength chunks.flatten then .ok (status, chunks.flatten)
          else .error .invalidResponse) ∧
      initialCapacity contentLength ≤ maxUpstreamResponseBytes ∧
      ∀ arrived rest, chunks = arrived ++ rest →
        (bufferAfter contentLength arrived).bytes <+: chunks.flatten ∧
        (bufferAfter contentLength arrived).bytes.length ≤ maxUpstreamResponseBytes ∧
        ∀ chunk : Bytes,
          ((tryExtendBody (bufferAfter contentLength arrived) chunk
              maxUpstreamResponseBytes).2 = false →
            (tryExtendBody (bufferAfter contentLength arrived) chunk
              maxUpstreamResponseBytes).1 = bufferAfter contentLength arrived) ∧
          (∀ sum ∈ checkedAdd (bufferAfter contentLength arrived).bytes.length chunk.length,
            sum = (bufferAfter contentLength arrived).bytes.length + chunk.length) ∧
          (chunk.length < 2 ^ 63 →
            checkedAdd (bufferAfter contentLength arrived).bytes.length chunk.length =
              some ((bufferAfter contentLength arrived).bytes.length + chunk.length)) := by
  refine ⟨?_, Nat.min_le_right _ _, ?_⟩
  · split
    · rename_i hwithin
      rw [sendFinish_within hwithin]
      rfl
    · rename_i hbeyond
      rw [sendFinish_beyond hbeyond]
      rfl
  · rintro arrived rest rfl
    obtain ⟨htaken, hlength⟩ := accumulate_prefix { capacity := initialCapacity contentLength }
      arrived (Nat.zero_le _)
    refine ⟨htaken.trans ?_, hlength, fun chunk => ⟨tryExtendBody_rejected, ?_, ?_⟩⟩
    · rw [List.flatten_append]
      exact List.prefix_append _ _
    · exact fun sum hsum => checkedAdd_exact hsum
    · intro hchunk
      have hbuffer : (bufferAfter contentLength arrived).bytes.length ≤ 1024 * 1024 := hlength
      exact if_pos (by omega)

end MojangApi.Mojang
