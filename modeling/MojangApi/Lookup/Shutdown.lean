import MojangApi.Batch.Shutdown
import MojangApi.Library.SingleFlight.Lasting
import MojangApi.Lookup.Failures

/-! # Lookups while the processor is shut down

The lookups go on while the owner of the processor shuts it down and, after the deadline,
aborts it. The one error the program makes up then stands for a queue that was closed before
the loader got its slot, for a batch task that panicked, or for the abort.
-/

namespace MojangApi.Lookup
open MojangApi Library

variable {ρ : Type*}

/-- The lookups with the owner of their processor, on one clock. -/
structure Owned where
  lookups : State
  owner : Batch.Owner := .running
  aborted : Bool := false

inductive OwnedEvent (ρ : Type*) where
  | lookups (e : Event ρ)
  | owner (e : Batch.OwnerEvent ρ)

def Event.isSignalShutdown : Event ρ → Bool
  | .process e => e.isSignalShutdown
  | _ => false

/-- What the owner does, and what its abort leaves to be done. -/
def isOwners : Batch.OwnerEvent ρ → Bool
  | .processor _ | .elapse _ => false
  | _ => true

namespace Owned

/-- The processor and its owner without the lookups. -/
def batch (s : Owned) : Batch.Owned :=
  ⟨s.lookups.processor, s.lookups.cache.now, s.owner, s.aborted⟩

def setLookups (s : Owned) (lookups : State) : Owned := { s with lookups := lookups }

def setBatch (s : Owned) (batch : Batch.Owned) : Owned :=
  ⟨s.lookups.setProcessor batch.processor, batch.owner, batch.aborted⟩

end Owned

/-- Only the owner signals a shutdown. -/
def owned (expiry : Cache.OptionalValueExpiry) (config : Batch.BatchConfig)
    (service : Batch.MojangService ρ) : Machine Owned (OwnedEvent ρ) where
  init := { lookups := (system expiry config service).init }
  step s
    | .lookups e =>
      if e.isSignalShutdown then none
      else ((system expiry config service).step s.lookups e).map s.setLookups
    | .owner e =>
      if isOwners e then ((Batch.owned config service).step s.batch e).map s.setBatch else none

section Steps
variable {expiry : Cache.OptionalValueExpiry} {config : Batch.BatchConfig}
  {service : Batch.MojangService ρ} {s t : Owned}

/-- What the owner leaves alone. -/
structure OwnerFrame (s t : Batch.Owned) : Prop where
  now : t.now = s.now
  accepted : t.processor.accepted = s.processor.accepted
  granted : t.processor.channel.granted = s.processor.channel.granted
  gone : t.processor.gone = s.processor.gone
  answered : t.processor.answered = s.processor.answered
  panicked : t.processor.panicked = s.processor.panicked
  closed : s.processor.channel.closed = true → t.processor.channel.closed = true
  aborted : s.aborted = true → t.aborted = true

theorem owner_frame {b b' : Batch.Owned} {e : Batch.OwnerEvent ρ} (he : isOwners e = true)
    (h : (Batch.owned config service).step b e = some b') : OwnerFrame b b' := by
  cases e with
  | processor | elapse => cases he
  | shutdown =>
    simp only [Batch.owned, Batch.Owned.shutdown] at h
    split at h <;> try contradiction
    exact Option.some.inj h ▸ ⟨rfl, rfl, rfl, rfl, rfl, rfl, id, id⟩
  | taskEnded =>
    simp only [Batch.owned, Batch.Owned.taskEnded] at h
    split at h <;> try contradiction
    all_goals
      split at h <;> try contradiction
      exact Option.some.inj h ▸ ⟨rfl, rfl, rfl, rfl, rfl, rfl, id, id⟩
  | timeout =>
    simp only [Batch.owned, Batch.Owned.timeout] at h
    split at h <;> try contradiction
    split at h <;> try contradiction
    exact Option.some.inj h ▸ ⟨rfl, rfl, rfl, rfl, rfl, rfl, id, id⟩
  | abort =>
    simp only [Batch.owned, Batch.Owned.abort] at h
    split at h <;> try contradiction
    split at h <;> try contradiction
    exact Option.some.inj h ▸ ⟨rfl, rfl, rfl, rfl, rfl, rfl, fun _ => rfl, fun _ => rfl⟩
  | cancelTask i =>
    simp only [Batch.owned, Option.ite_none_right_eq_some] at h
    obtain ⟨p, hp, rfl⟩ := Option.map_eq_some_iff.mp h.2
    unfold Batch.State.cancelTask at hp
    split at hp <;> try contradiction
    all_goals exact Option.some.inj hp ▸ ⟨rfl, rfl, rfl, rfl, rfl, rfl, id, id⟩
  | freeQueue =>
    simp only [Batch.owned, Option.ite_none_right_eq_some] at h
    obtain ⟨p, hp, rfl⟩ := Option.map_eq_some_iff.mp h.2
    unfold Batch.State.freeQueue at hp
    split at hp <;> try contradiction
    exact Option.some.inj hp ▸ ⟨rfl, rfl, rfl, rfl, rfl, rfl, fun _ => rfl, id⟩

theorem owned_step {e : OwnedEvent ρ} (h : (owned expiry config service).step s e = some t) :
    (∃ le lookups, le.isSignalShutdown = false ∧
        (system expiry config service).step s.lookups le = some lookups ∧
        t = s.setLookups lookups) ∨
      ∃ oe b, (Batch.owned config service).step s.batch oe = some b ∧ OwnerFrame s.batch b ∧
        t = s.setBatch b := by
  cases e with
  | lookups e =>
    simp only [owned, Option.ite_none_left_eq_some, Bool.not_eq_true] at h
    obtain ⟨lookups, hlookups, rfl⟩ := Option.map_eq_some_iff.mp h.2
    exact .inl ⟨e, lookups, h.1, hlookups, rfl⟩
  | owner e =>
    simp only [owned, Option.ite_none_right_eq_some] at h
    obtain ⟨b, hb, rfl⟩ := Option.map_eq_some_iff.mp h.2
    exact .inr ⟨e, b, hb, owner_frame h.1 hb, rfl⟩

/-- The processor goes on by itself, then the time passes. -/
theorem batch_leads {le : Event ρ} {lookups : State} (hsignal : le.isSignalShutdown = false)
    (h : (system expiry config service).step s.lookups le = some lookups) :
    (Batch.owned config service).Leads s.batch (s.setLookups lookups).batch := by
  have hnow := SingleFlight.now_leads (cache_simulation.leads (Machine.leads_step h))
  have helapsed : (Batch.owned config service).Leads
      ⟨lookups.processor, s.lookups.cache.now, s.owner, s.aborted⟩ (s.setLookups lookups).batch := by
    refine Machine.leads_step (e := .elapse (lookups.cache.now - s.lookups.cache.now)) ?_
    simp only [Batch.owned, Nat.add_sub_cancel' hnow]
    rfl
  rcases processor_step h with hsame | ⟨pe, hown, hstep⟩
  · rw [hsame] at helapsed
    exact helapsed
  · refine Machine.Leads.trans (Machine.leads_step (e := .processor pe) ?_) helapsed
    have hquiet : pe.isSignalShutdown = false := by
      cases pe with
      | signalShutdown => cases (hown rfl) ▸ hsignal
      | _ => rfl
    change (if _ then _ else ((Batch.processor config service).step s.lookups.processor pe).map _) = _
    rw [hquiet, hstep]
    rfl

/-- Without the lookups, the processor and its owner run as they do alone. -/
theorem batch_simulation : Machine.Simulation (owned expiry config service)
    (Batch.owned config service) Owned.batch where
  init := rfl
  step s e t h := by
    rcases owned_step h with ⟨le, lookups, hsignal, hlookups, rfl⟩ | ⟨oe, b, hb, hframe, rfl⟩
    · exact batch_leads hsignal hlookups
    · have hbatch : (s.setBatch b).batch = b := by
        change Batch.Owned.mk b.processor s.batch.now b.owner b.aborted = b
        rw [← hframe.now]
      rw [hbatch]
      exact Machine.leads_step hb

/-- The cache does not notice the owner. -/
theorem owned_cache : Machine.Simulation (owned expiry config service)
    (SingleFlight.machine expiry.ttlFor) fun s => s.lookups.cache where
  init := rfl
  step s e t h := by
    rcases owned_step h with ⟨le, lookups, -, hlookups, rfl⟩ | ⟨oe, b, -, -, rfl⟩
    · exact cache_simulation.leads (Machine.leads_step hlookups)
    · exact Machine.leads_refl _

/-- Before the abort senders are disposed of for a reason, and afterwards some are lost. -/
theorem disposals_explained (h : (owned expiry config service).Reachable s) :
    Batch.Fresh s.lookups.processor ∧ Batch.ExplainedOr
      (Batch.Lost (s.aborted = true) s.lookups.processor) s.lookups.processor := by
  have hs := Batch.reachable_supervised (batch_simulation.reachable h)
  cases ha : s.aborted with
  | false =>
    have hconserved := Batch.reachable_conserved (hs.running ha)
    exact ⟨hconserved.fresh, hconserved.explainedOr _⟩
  | true =>
    have hdropped := hs.dropped ha
    exact ⟨hdropped.fresh, hdropped.explainedOr rfl⟩

theorem Linked.setBatch (h : Linked s.lookups) {b : Batch.Owned} (hframe : OwnerFrame s.batch b) :
    Linked (s.setBatch b).lookups where
  sends := h.sends
  keys := h.keys
  granted lookup hmem := h.granted lookup (hframe.granted ▸ hmem)
  accepted lookup hmem := h.accepted lookup (hframe.accepted ▸ hmem)
  gone i hmem := h.gone i (hframe.gone ▸ hmem)
  waiting lookup hmem :=
    (h.waiting lookup (hframe.accepted ▸ hmem)).imp_left fun hgone => hframe.gone.symm ▸ hgone
  backed i key q value time hload := by
    obtain ⟨names, profiles, hmem, hrest⟩ := h.backed i key q value time hload
    exact ⟨names, profiles, hframe.answered.symm ▸ hmem, hrest⟩

theorem Blames.abort {aborted aborted' : Prop} {p : Batch.State} {sends : List SendPhase} {i : ℕ}
    {key : Str} {error : UpstreamError} (h : Blames aborted p sends i key error)
    (ha : aborted → aborted') : Blames aborted' p sends i key error :=
  h.imp_right fun hlost => hlost.imp_right fun hwhere => hwhere.imp_right fun hrest =>
    hrest.imp_right fun hcut => hcut.imp_left ha

theorem OwnerFrame.grown {b : Batch.Owned} (h : OwnerFrame s.batch b) :
    Grown s.lookups.processor b.processor where
  answered := h.answered ▸ List.Subset.refl _
  panicked := h.panicked ▸ List.Subset.refl _
  accepted := h.accepted ▸ List.Subset.refl _
  closed := h.closed

/-- The messages belong to their loads, and every load that failed has a reason. -/
structure Accountable (s : Owned) : Prop where
  linked : Linked s.lookups
  blamed : Blamed (s.aborted = true) s.lookups

theorem reachable_accountable (h : (owned expiry config service).Reachable s) : Accountable s := by
  apply h.invariant
  · exact ⟨@linked_init ρ expiry config service, fun _ _ _ _ _ hi => by cases hi⟩
  · intro u e v hreachable hu hv
    have hcoherent := SingleFlight.reachable_coherent (owned_cache.reachable hreachable)
    obtain ⟨hfresh, hexplained⟩ := disposals_explained hreachable
    rcases owned_step hv with ⟨le, lookups, -, hlookups, rfl⟩ | ⟨oe, b, -, hframe, rfl⟩
    · have hmoves := step_moves hlookups
      exact ⟨hu.linked.moves hcoherent hfresh hexplained hmoves,
        hu.blamed.moves hu.linked hcoherent hexplained hmoves (grown_step hlookups)⟩
    · refine ⟨hu.linked.setBatch hframe, fun i key q error time hi => ?_⟩
      exact ((hu.blamed i key q error time hi).abort hframe.aborted).mono hframe.grown id

end Steps

/-- A lookup fails only with the error of a call that listed its lowercased name, or with
`transport`: when the queue was closed before its message had a slot, when the batch task that
held its response sender panicked, or when it was accepted and the processor was aborted, which
is not before the deadline. -/
theorem errors_explained (expiry : Cache.OptionalValueExpiry) (config : Batch.BatchConfig)
    (service : Batch.MojangService ρ) (s : Owned)
    (h : (owned expiry config service).Reachable s) (r : ℕ)
    (c : SingleFlight.Caller Str (Option Uuid) UpstreamError) (error : UpstreamError)
    (origin : SingleFlight.Origin) (hr : s.lookups.cache.callers[r]? = some c)
    (hp : c.phase = .returned (.error error) origin) :
    ∃ name, s.lookups.requests[r]? = some name ∧
      ((∃ names, (names, .error error) ∈ s.lookups.processor.answered ∧
          asciiLowercase name ∈ names) ∨
        error = .transport ∧
          (s.lookups.processor.channel.closed = true ∧
              (∀ lookup ∈ s.lookups.processor.accepted, lookup.response ≠ origin.load) ∨
            (∃ kept ∈ s.lookups.processor.panicked, origin.load ∈ Batch.responses kept) ∨
            s.aborted = true ∧ origin.load ∈ Batch.responses s.lookups.processor.accepted ∧
              ∃ since, (s.owner = .aborting since ∨ s.owner = .returned since) ∧
                since + Batch.batchShutdownTimeout ≤ s.lookups.cache.now)) := by
  have haccountable := reachable_accountable h
  have hsupervised := Batch.reachable_supervised (batch_simulation.reachable h)
  have hok := (SingleFlight.reachable_coherent (owned_cache.reachable h)).callers r c hr
  simp only [SingleFlight.CallerOk, hp] at hok
  obtain ⟨-, q, time, hload, -⟩ := hok
  obtain ⟨name, hname, hkey⟩ := haccountable.linked.key_eq hr
  refine ⟨name, hname, ?_⟩
  rw [← hkey]
  rcases haccountable.blamed _ _ _ _ _ hload with
    hanswer | ⟨rfl, ⟨hclosed, hsend⟩ | hpanicked | ⟨haborted, haccepted⟩⟩
  · exact .inl hanswer
  · refine .inr ⟨rfl, .inl ⟨hclosed, fun lookup hmem hresponse => ?_⟩⟩
    have hsent := (haccountable.linked.accepted lookup hmem).1
    rw [hresponse, hsend] at hsent
    cases hsent
  · exact .inr ⟨rfl, .inr (.inl hpanicked)⟩
  · exact .inr ⟨rfl, .inr (.inr ⟨haborted, haccepted, hsupervised.late haborted⟩)⟩

/-- A lookup whose call is not answered by Mojang during a shutdown. -/
def hungLookup : List (OwnedEvent Unit) :=
  ((soleLookup "steve".toList).take 9).map .lookups ++ [.owner .shutdown,
    .lookups (.elapse Batch.batchShutdownTimeout), .owner .timeout, .owner .abort,
    .owner (.cancelTask 0), .lookups (.receive 0)]

/-- It fails, and the abort is to blame. -/
theorem errors_explained_hung : ∃ s,
    (owned .default Batch.smallConfig Batch.nobody).run hungLookup = some s ∧
    (s.lookups.cache.callers[0]?).map SingleFlight.Caller.phase =
      some (.returned (.error .transport) (.loaded 0)) ∧
    s.aborted = true ∧ ∃ since, (s.owner = .aborting since ∨ s.owner = .returned since) ∧
      since + Batch.batchShutdownTimeout ≤ s.lookups.cache.now := by
  have hrun : ((owned .default Batch.smallConfig Batch.nobody).run hungLookup).map (fun s =>
      (s.lookups.processor.accepted.map Batch.PendingLookup.response,
        s.lookups.processor.panicked.length, s.lookups.processor.answered,
        s.lookups.cache.callers[0]?)) =
        some ([0], 0, [], some ⟨"steve".toList, .returned (.error .transport) (.loaded 0), 1, 0⟩) := by
    rfl
  obtain ⟨s, hs, hvalues⟩ := Option.map_eq_some_iff.mp hrun
  simp only [Prod.mk.injEq] at hvalues
  obtain ⟨haccepted, hpanicked, hanswered, hcaller⟩ := hvalues
  refine ⟨s, hs, by rw [hcaller]; rfl, ?_⟩
  obtain ⟨name, -, ⟨names, hmem, -⟩ | ⟨-, ⟨-, hrefused⟩ | ⟨kept, hmem, -⟩ |
    ⟨haborted, -, hlate⟩⟩⟩ := errors_explained .default Batch.smallConfig Batch.nobody s
    (Machine.reachable_of_run hs) 0 _ _ _ hcaller rfl
  · rw [hanswered] at hmem
    cases hmem
  · obtain ⟨lookup, hlookup, hresponse⟩ := List.map_eq_singleton_iff.mp haccepted
    exact absurd hresponse (hrefused lookup (by simp [hlookup]))
  · rw [List.eq_nil_of_length_eq_zero hpanicked] at hmem
    cases hmem
  · exact ⟨haborted, hlate⟩

end MojangApi.Lookup
