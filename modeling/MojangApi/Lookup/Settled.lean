import MojangApi.Batch.Drain
import MojangApi.Library.SingleFlight.Progress
import MojangApi.Lookup.Distinct
import MojangApi.Lookup.Placed

/-! # Nothing is asked for once every lookup is over

The queue and the pending lookups may still be full when the last requester has
returned or left. Their receivers are gone then, so the batch tasks filter all of
them out, and a processor that is told to stop has nobody to wait for.
-/

namespace MojangApi.Lookup
open MojangApi Library

variable {ρ : Type*} {expiry : Cache.OptionalValueExpiry} {config : Batch.BatchConfig}
  {service : Batch.MojangService ρ} {s t : State}

theorem settled_iff {cache : CacheState} : settled cache = true ↔
    ∀ (r : ℕ) c, cache.callers[r]? = some c → c.Over := by
  rw [settled, List.all_eq_true]
  constructor
  · intro h r c hr
    have hc := h c (List.mem_of_getElem? hr)
    cases hp : c.phase <;> simp [SingleFlight.Caller.Over, hp] at hc ⊢
  · intro h c hmem
    obtain ⟨r, hr⟩ := List.mem_iff_getElem?.mp hmem
    have hc := h r c hr
    cases hp : c.phase <;> simp [SingleFlight.Caller.Over, hp] at hc ⊢

/-- The processor's steps other than the senders' leaving leave the handles alone. -/
theorem sendersGone_of_own {p p' : Batch.State} {e : Batch.Event ρ} (hown : e.own = true)
    (hsenders : e.isDropSenders = false) (h : (Batch.processor config service).step p e = some p') :
    p'.sendersGone = p.sendersGone := by
  by_cases hwork : e.isWork = true
  · rcases Batch.worked hwork h with hworked | ⟨-, -, rfl⟩
    · exact hworked.sendersGone
    · rfl
  · cases e with
    | dropSenders => cases hsenders
    | signalShutdown =>
      obtain rfl := Option.some.inj h
      rfl
    | reserve | push | revoke | dropReceiver | count => cases hown
    | _ => exact absurd rfl hwork

/-- The lookups themselves never drop the handles. -/
theorem sendersGone_of_lookups {e : Event ρ} (hm : Moves expiry config service s e t)
    (he : ∀ own, e ≠ .process own) : t.processor.sendersGone = s.processor.sendersGone := by
  cases hm with
  | reserve _ hprocessor =>
    have hmoves : Batch.Moves config service s.processor false _ := Batch.moves_of_reserve hprocessor
    cases hmoves <;> rfl
  | push _ hprocessor =>
    obtain ⟨channel, -, rfl⟩ := Option.map_eq_some_iff.mp hprocessor
    rfl
  | abandon _ _ _ hprocessor =>
    rcases hprocessor with ⟨-, rfl⟩ | ⟨-, hrevoke⟩ | ⟨-, rfl⟩
    · rfl
    · obtain ⟨channel, -, rfl⟩ := Option.map_eq_some_iff.mp hrevoke
      rfl
    · rfl
  | process => exact absurd rfl (he _)
  | _ => rfl

/-- Apart from a call, a step of settled lookups leaves callers and loads alone. -/
theorem rest_of_settled (h : (system expiry config service).Reachable s)
    (hsettled : settled s.cache = true) {e : Event ρ}
    (ht : (system expiry config service).step s e = some t) (hcall : ∀ name, e ≠ .lookup name) :
    t.cache.callers = s.cache.callers ∧ t.cache.loads = s.cache.loads := by
  have hover := settled_iff.mp hsettled
  have hrest := fun ce hstep hne =>
    SingleFlight.rest_of_over (e := ce) (t := t.cache) (reachable_coherent h) hover hstep hne
  cases step_moves ht with
  | lookup name => exact absurd rfl (hcall name)
  | @enter r cache hcache => exact hrest (.enter r) hcache (by simp)
  | @load r cache key hcache => exact hrest (.enter r) hcache (by simp)
  | @sendError i lookup cache _ _ hcache => exact hrest (.finish i _) hcache (by simp)
  | @receive i lookup disposal cache _ _ hcache => exact hrest (.finish i _) hcache (by simp)
  | @wake r cache hcache => exact hrest (.wake r) hcache (by simp)
  | @drop r cache hcache => exact hrest (.drop r) hcache (by simp)
  | @abandon r i key cache processor hcache => exact hrest (.drop r) hcache (by simp)
  | _ => exact ⟨rfl, rfl⟩

theorem settled_of_rest (hsettled : settled s.cache = true)
    (hcallers : t.cache.callers = s.cache.callers) : settled t.cache = true := by
  rw [settled, hcallers]
  exact hsettled

/-- The handles are dropped only when no lookup can use one any more. -/
theorem settled_of_sendersGone (h : (system expiry config service).Reachable s)
    (hgone : s.processor.sendersGone = true) : settled s.cache = true := by
  revert hgone
  apply h.invariant
  · intro hgone
    cases hgone
  · intro u e v hu hsettled hstep hgone
    have hkeep : u.processor.sendersGone = true → (∀ name, e ≠ .lookup name) →
        settled v.cache = true := fun hgone hcall =>
      settled_of_rest (hsettled hgone) (rest_of_settled hu (hsettled hgone) hstep hcall).1
    cases e with
    | lookup name =>
      simp only [system, State.lookup, Option.ite_none_left_eq_some, Option.some.injEq] at hstep
      obtain ⟨hopen, rfl⟩ := hstep
      exact absurd hgone hopen
    | process e =>
      simp only [system, State.process, Option.ite_none_right_eq_some, Bool.and_eq_true,
        Bool.or_eq_true, Bool.not_eq_true'] at hstep
      obtain ⟨⟨hown, hguard⟩, hprocess⟩ := hstep
      obtain ⟨processor, hprocessor, rfl⟩ := Option.map_eq_some_iff.mp hprocess
      rcases hguard with hsettled' | hsenders
      · exact hsettled'
      · exact hsettled ((sendersGone_of_own hown hsenders hprocessor).symm.trans hgone)
    | _ => exact hkeep (sendersGone_of_lookups (step_moves hstep) (by simp) ▸ hgone) (by simp)

end MojangApi.Lookup
