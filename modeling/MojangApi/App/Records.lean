import MojangApi.App.Accounting
import MojangApi.App.History
import MojangApi.Lookup.Failures

/-! # Every answer is what an exchange of the run meant

The records of the batch tasks and the ends of the skin loads are traced back to the
events that made them, together with the call or the load that was in progress then.
-/

namespace MojangApi.App
open MojangApi Library Mojang

variable {U : Type} {expiry : Cache.OptionalValueExpiry} {config : Batch.BatchConfig}
  {client : MojangHttpClient U} {s t : State} {es : List Event}

/-- During the run a call for these names was in progress, and the exchange ended it. -/
def CallEnded (expiry : Cache.OptionalValueExpiry) (config : Batch.BatchConfig)
    (client : MojangHttpClient U) (es : List Event) (names : List Str) (exchange : Exchange) :
    Prop :=
  ∃ before u i kept, before ++ [.names (.process (.completeTask i exchange))] <+: es ∧
    (system expiry config client).run before = some u ∧
    u.lookup.processor.tasks[i]? = some (.calling kept) ∧ Batch.names kept = names

/-- During the run a load of this skin was in progress, and the exchange ended it. -/
def LoadEnded (expiry : Cache.OptionalValueExpiry) (config : Batch.BatchConfig)
    (client : MojangHttpClient U) (es : List Event) (uuid : Uuid) (exchange : Exchange) : Prop :=
  ∃ before u i owner, before ++ [.finishSkin i exchange] <+: es ∧
    (system expiry config client).run before = some u ∧
    u.skins.loads[i]? = some ⟨uuid, owner, .running⟩

structure Records (expiry : Cache.OptionalValueExpiry) (config : Batch.BatchConfig)
    (client : MojangHttpClient U) (es : List Event) (s : State) : Prop where
  answered : ∀ names result, (names, result) ∈ s.lookup.processor.answered →
    ∃ exchange, CallEnded expiry config client es names exchange ∧
      result = namesOutcome client.libraries exchange
  panicked : s.lookup.processor.panicked ≠ [] → ∃ i, .names (.process (.panicTask i)) ∈ es
  shutdown : s.lookup.processor.shutdown = true → .names (.process .signalShutdown) ∈ es
  skins : ∀ (i : ℕ) uuid owner result time,
    s.skins.loads[i]? = some ⟨uuid, owner, .finished result time⟩ →
    ∃ exchange, LoadEnded expiry config client es uuid exchange ∧
      result = skinOutcome client.libraries exchange

theorem CallEnded.mono {names : List Str} {exchange : Exchange}
    (h : CallEnded expiry config client es names exchange) (e : Event) :
    CallEnded expiry config client (es ++ [e]) names exchange := by
  obtain ⟨before, u, i, kept, hprefix, hrest⟩ := h
  exact ⟨before, u, i, kept, hprefix.trans (List.prefix_append _ _), hrest⟩

theorem LoadEnded.mono {uuid : Uuid} {exchange : Exchange}
    (h : LoadEnded expiry config client es uuid exchange) (e : Event) :
    LoadEnded expiry config client (es ++ [e]) uuid exchange := by
  obtain ⟨before, u, i, owner, hprefix, hrest⟩ := h
  exact ⟨before, u, i, owner, hprefix.trans (List.prefix_append _ _), hrest⟩

theorem sameLog_count (s : State) (metrics : Metrics) :
    Batch.SameLog s.lookup.processor (s.countMetrics metrics).lookup.processor :=
  .of_closed rfl rfl rfl rfl

/-- Only the batch tasks and the signal write the processor's records. -/
theorem processor_log {e : Event} (h : (system expiry config client).step s e = some t) :
    Batch.SameLog s.lookup.processor t.lookup.processor ∨
      ∃ own, e = .names (.process own) ∧
        Batch.Logs client.service s.lookup.processor t.lookup.processor own := by
  have same := Batch.SameLog.refl s.lookup.processor
  cases e with
  | lookupUuid name =>
    simp only [system, State.lookupUuid] at h
    split at h
    · exact .inl (Option.some.inj h ▸ .of_closed rfl rfl rfl rfl)
    · obtain ⟨lookup, hlookup, rfl⟩ := Option.map_eq_some_iff.mp h
      obtain rfl := Lookup.lookup_eq_some hlookup
      exact .inl (.of_closed rfl rfl rfl rfl)
  | lookupSkin value =>
    obtain rfl := Option.some.inj h
    unfold State.lookupSkin
    dsimp only
    split <;> exact .inl (sameLog_count s _)
  | names e =>
    simp only [system, Option.ite_none_right_eq_some] at h
    obtain ⟨lookup, hlookup, rfl⟩ := Option.map_eq_some_iff.mp h.2
    rcases Lookup.log_step hlookup with hlog | ⟨own, rfl, hlogs⟩
    · exact .inl hlog
    · exact .inr ⟨own, rfl, hlogs⟩
  | enterSkin r =>
    obtain ⟨skins, -, rfl⟩ := Option.map_eq_some_iff.mp h
    split <;> exact .inl (sameLog_count s _)
  | finishSkin i exchange =>
    obtain ⟨load, -, h⟩ := Option.bind_eq_some_iff.mp h
    obtain ⟨skins, -, rfl⟩ := Option.map_eq_some_iff.mp h
    exact .inl (sameLog_count s _)
  | wakeSkin r =>
    obtain ⟨skins, -, rfl⟩ := Option.map_eq_some_iff.mp h
    exact .inl (sameLog_count s _)
  | dropSkin r =>
    obtain ⟨skins, -, rfl⟩ := Option.map_eq_some_iff.mp h
    exact .inl same
  | evictSkin uuid =>
    obtain rfl := Option.some.inj h
    exact .inl same
  | elapse d =>
    obtain rfl := Option.some.inj h
    exact .inl (.of_closed rfl rfl rfl rfl)

/-- A load of a skin ends with a result only when its own exchange is over. -/
theorem skins_finished (hc : SingleFlight.Coherent expiry.ttlFor s.skins) {e : Event}
    (h : (system expiry config client).step s e = some t) {i owner time : ℕ} {uuid : Uuid}
    {result : Except UpstreamError (Option SkinProperty)}
    (hi : t.skins.loads[i]? = some ⟨uuid, owner, .finished result time⟩) :
    s.skins.loads[i]? = some ⟨uuid, owner, .finished result time⟩ ∨
      ∃ exchange, e = .finishSkin i exchange ∧ s.skins.loads[i]? = some ⟨uuid, owner, .running⟩ ∧
        result = (MojangHttpClient.afterStart (client.lookupSkinStart uuid)
          (client.lookupSkinFinish exchange) s.metrics).2 := by
  have hkept : ∀ ce : SingleFlight.Event Uuid (Option SkinProperty) UpstreamError,
      (SingleFlight.machine expiry.ttlFor).step s.skins ce = some t.skins →
      (∀ j r, ce ≠ .finish j r) →
      s.skins.loads[i]? = some ⟨uuid, owner, .finished result time⟩ := by
    intro ce hstep hne
    rcases SingleFlight.finished_step hc hstep hi with hold | ⟨heq, -⟩
    · exact hold
    · exact absurd heq (hne i result)
  cases e with
  | lookupUuid name =>
    simp only [system, State.lookupUuid] at h
    split at h
    · obtain rfl := Option.some.inj h
      exact .inl hi
    · obtain ⟨lookup, -, rfl⟩ := Option.map_eq_some_iff.mp h
      exact .inl hi
  | lookupSkin value =>
    obtain rfl := Option.some.inj h
    unfold State.lookupSkin at hi hkept
    dsimp only at hi hkept
    split at hi
    · exact .inl hi
    · rename_i key hparse
      exact .inl (hkept (.call key) (by rw [hparse]; rfl) (by simp))
  | names e =>
    simp only [system, Option.ite_none_right_eq_some] at h
    obtain ⟨lookup, -, rfl⟩ := Option.map_eq_some_iff.mp h.2
    exact .inl hi
  | enterSkin r =>
    obtain ⟨skins, hskins, rfl⟩ := Option.map_eq_some_iff.mp h
    refine .inl (hkept (.enter r) ?_ (by simp))
    split <;> exact hskins
  | finishSkin j exchange =>
    obtain ⟨load, hload, h⟩ := Option.bind_eq_some_iff.mp h
    obtain ⟨skins, hskins, rfl⟩ := Option.map_eq_some_iff.mp h
    rcases SingleFlight.finished_step (e := .finish j _) hc hskins hi with hold | ⟨heq, hrunning⟩
    · exact .inl hold
    · obtain ⟨rfl, rfl⟩ := SingleFlight.Event.finish.inj heq
      obtain rfl := Option.some.inj (hload.symm.trans hrunning)
      exact .inr ⟨exchange, rfl, hrunning, rfl⟩
  | wakeSkin r =>
    obtain ⟨skins, hskins, rfl⟩ := Option.map_eq_some_iff.mp h
    exact .inl (hkept (.wake r) hskins (by simp))
  | dropSkin r =>
    obtain ⟨skins, hskins, rfl⟩ := Option.map_eq_some_iff.mp h
    exact .inl (hkept (.drop r) hskins (by simp))
  | evictSkin key =>
    obtain rfl := Option.some.inj h
    exact .inl (hkept (.evict key) rfl (by simp))
  | elapse d =>
    obtain rfl := Option.some.inj h
    exact .inl (hkept (.elapse d) rfl (by simp))

theorem Records.keep (h : Records expiry config client es s) (e : Event)
    (hlog : Batch.SameLog s.lookup.processor t.lookup.processor)
    (hskins : ∀ (i : ℕ) uuid owner result time,
      t.skins.loads[i]? = some ⟨uuid, owner, .finished result time⟩ →
      ∃ exchange, LoadEnded expiry config client (es ++ [e]) uuid exchange ∧
        result = skinOutcome client.libraries exchange) :
    Records expiry config client (es ++ [e]) t where
  answered names result hmem := by
    obtain ⟨exchange, hended, hresult⟩ := h.answered names result (hlog.answered ▸ hmem)
    exact ⟨exchange, hended.mono e, hresult⟩
  panicked hne := by
    obtain ⟨i, hmem⟩ := h.panicked (hlog.panicked ▸ hne)
    exact ⟨i, List.mem_append_left _ hmem⟩
  shutdown hsignal := List.mem_append_left _ (h.shutdown (hlog.shutdown ▸ hsignal))
  skins := hskins

theorem Records.step (hclient : client.Reliable) (h : Records expiry config client es s)
    (hrun : (system expiry config client).run es = some s) {e : Event}
    (ht : (system expiry config client).step s e = some t) :
    Records expiry config client (es ++ [e]) t := by
  have hskins : ∀ (i : ℕ) uuid owner result time,
      t.skins.loads[i]? = some ⟨uuid, owner, .finished result time⟩ →
      ∃ exchange, LoadEnded expiry config client (es ++ [e]) uuid exchange ∧
        result = skinOutcome client.libraries exchange := by
    intro i uuid owner result time hi
    rcases skins_finished (reachable_coherent (Machine.reachable_of_run hrun)) ht hi with
      hold | ⟨exchange, rfl, hrunning, rfl⟩
    · obtain ⟨exchange, hended, hresult⟩ := h.skins i uuid owner result time hold
      exact ⟨exchange, hended.mono e, hresult⟩
    · exact ⟨exchange, ⟨es, s, i, owner, List.prefix_refl _, hrun, hrunning⟩,
        skin_outcome hclient uuid exchange s.metrics⟩
  rcases processor_log ht with hlog | ⟨own, rfl, hlogs⟩
  · exact h.keep e hlog hskins
  · have hearlier : ∀ names result, (names, result) ∈ s.lookup.processor.answered →
        ∃ exchange, CallEnded expiry config client (es ++ [.names (.process own)]) names exchange ∧
          result = namesOutcome client.libraries exchange := by
      intro names result hmem
      obtain ⟨exchange, hended, hresult⟩ := h.answered names result hmem
      exact ⟨exchange, hended.mono _, hresult⟩
    have hpanicked : s.lookup.processor.panicked ≠ [] →
        ∃ i, .names (.process (.panicTask i)) ∈ es ++ [.names (.process own)] := by
      intro hne
      obtain ⟨i, hmem⟩ := h.panicked hne
      exact ⟨i, List.mem_append_left _ hmem⟩
    cases hlogs with
    | @answer i kept exchange htask hanswered hsame hshutdown =>
      refine ⟨?_, fun hne => hpanicked (hsame ▸ hne), ?_, hskins⟩
      · intro names result hmem
        rw [hanswered] at hmem
        rcases List.mem_append.mp hmem with hmem | hmem
        · exact hearlier names result hmem
        · obtain ⟨rfl, rfl⟩ := Prod.mk.inj (List.mem_singleton.mp hmem)
          exact ⟨exchange, ⟨es, s, i, kept, List.prefix_refl _, hrun, htask, rfl⟩,
            service_outcome hclient _ _ _⟩
      · intro hsignal
        exact List.mem_append_left _ (h.shutdown (hshutdown ▸ hsignal))
    | panic i hanswered hshutdown =>
      refine ⟨fun names result hmem => hearlier names result (hanswered ▸ hmem), ?_, ?_, hskins⟩
      · exact fun _ => ⟨i, by simp⟩
      · intro hsignal
        exact List.mem_append_left _ (h.shutdown (hshutdown ▸ hsignal))
    | shutdown hanswered hsame =>
      refine ⟨fun names result hmem => hearlier names result (hanswered ▸ hmem),
        fun hne => hpanicked (hsame ▸ hne), fun _ => by simp, hskins⟩

theorem records_run (hclient : client.Reliable)
    (h : (system expiry config client).run es = some s) : Records expiry config client es s := by
  refine Machine.runFrom_history (P := fun es s => Records expiry config client es s) ?_ ?_ h
  · constructor
    · intro names result hmem
      cases hmem
    · exact fun hne => absurd rfl hne
    · intro hsignal
      cases hsignal
    · intro i uuid owner result time hi
      cases hi
  · intro es u e v hu hrecords hv
    exact hrecords.step hclient hu hv

end MojangApi.App
