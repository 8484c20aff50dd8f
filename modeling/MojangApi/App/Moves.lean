import MojangApi.App.Handlers
import MojangApi.Lookup.Counting

/-! # What one step of the application can do

Seen alone, the name lookups run as the lookup system among other users of the
counters, and the skin cache runs as a coalescing cache.
-/

namespace MojangApi.App
open MojangApi Library Mojang

variable {U : Type}

inductive Moves (expiry : Cache.OptionalValueExpiry) (config : Batch.BatchConfig)
    (client : MojangHttpClient U) (s : State) : State → Prop
  | rejectName :
      Moves expiry config client s { s with
        lookup := s.lookup.countMetrics s.metrics.incrementUuidRequests
        uuidHandlers := s.uuidHandlers ++ [none] }
  | callName {name : Str} {lookup : Lookup.State}
      (hlookup : (s.lookup.countMetrics s.metrics.incrementUuidRequests).lookup name = some lookup) :
      Moves expiry config client s { s with
        lookup := lookup
        uuidHandlers := s.uuidHandlers ++ [some s.lookup.cache.callers.length] }
  | rejectUuid :
      Moves expiry config client s { s.countMetrics s.metrics.incrementSkinRequests with
        skinHandlers := s.skinHandlers ++ [none] }
  | callUuid (uuid : Uuid) :
      Moves expiry config client s { s.countMetrics s.metrics.incrementSkinRequests with
        skins := s.skins.call uuid
        skinHandlers := s.skinHandlers ++ [some s.skins.callers.length] }
  | names {e : Lookup.Event Exchange} {lookup : Lookup.State} (hinternal : isInternal e = true)
      (hlookup : (Lookup.system expiry config client.service).step s.lookup e = some lookup) :
      Moves expiry config client s (s.setLookup lookup)
  | enterSkin {r : ℕ} {skins : SkinCache} (hskins : s.skins.enter expiry.ttlFor r = some skins)
      (hloads : skins.loads = s.skins.loads) :
      Moves expiry config client s
        ((s.setSkins skins).countMetrics (countSkinHit skins r s.metrics))
  | loadSkin {r : ℕ} {skins : SkinCache} {uuid : Uuid}
      (hskins : s.skins.enter expiry.ttlFor r = some skins)
      (hloads : skins.loads = s.skins.loads ++ [⟨uuid, r, .running⟩])
      (hserved : skins.servedFromCache r = false) :
      Moves expiry config client s ((s.setSkins skins).countMetrics
        ((client.lookupSkinStart uuid).run.run s.metrics.incrementSkinCacheMisses).2)
  | finishSkin {i r : ℕ} {skins : SkinCache} {uuid : Uuid} (exchange : Exchange)
      (hload : s.skins.loads[i]? = some ⟨uuid, r, .running⟩)
      (hskins : s.skins.finish i (MojangHttpClient.afterStart (client.lookupSkinStart uuid)
        (client.lookupSkinFinish exchange) s.metrics).2 = some skins) :
      Moves expiry config client s ((s.setSkins skins).countMetrics
        (MojangHttpClient.afterStart (client.lookupSkinStart uuid)
          (client.lookupSkinFinish exchange) s.metrics).1)
  | wakeSkin {r : ℕ} {skins : SkinCache} (hskins : s.skins.wake r = some skins) :
      Moves expiry config client s
        ((s.setSkins skins).countMetrics (countSkinHit skins r s.metrics))
  | dropSkin {r : ℕ} {skins : SkinCache} (hskins : s.skins.drop r = some skins) :
      Moves expiry config client s (s.setSkins skins)
  | evictSkin (uuid : Uuid) :
      Moves expiry config client s (s.setSkins (s.skins.evict uuid))
  | elapse (d : ℕ) : Moves expiry config client s (s.elapse d)

section Steps
variable {expiry : Cache.OptionalValueExpiry} {config : Batch.BatchConfig}
  {client : MojangHttpClient U} {s t : State}

theorem moves_of_lookupUuid {name : Str} (h : s.lookupUuid name = some t) :
    Moves expiry config client s t := by
  unfold State.lookupUuid at h
  dsimp only at h
  split at h
  · exact Option.some.inj h ▸ .rejectName
  · obtain ⟨lookup, hlookup, rfl⟩ := Option.map_eq_some_iff.mp h
    exact .callName hlookup

theorem moves_of_lookupSkin (value : Str) :
    Moves expiry config client s (s.lookupSkin client value) := by
  unfold State.lookupSkin
  dsimp only
  split
  · exact .rejectUuid
  · exact .callUuid _

theorem moves_of_enterSkin {r : ℕ} (h : s.enterSkin client expiry r = some t) :
    Moves expiry config client s t := by
  obtain ⟨skins, hskins, rfl⟩ := Option.map_eq_some_iff.mp h
  rcases SingleFlight.enter_loads hskins with hloads | ⟨uuid, hloads, hserved⟩
  · have hnone : skins.loads[s.skins.loads.length]? = none := by simp [hloads]
    rw [hnone]
    exact .enterSkin hskins hloads
  · have hload : skins.loads[s.skins.loads.length]? = some ⟨uuid, r, .running⟩ := by simp [hloads]
    rw [hload]
    exact .loadSkin hskins hloads hserved

/-- The loader of a skin gets a fresh value, so that it counts no hit. -/
theorem moves_of_finishSkin {i : ℕ} {exchange : Exchange}
    (h : s.finishSkin client i exchange = some t) : Moves expiry config client s t := by
  obtain ⟨load, hload, h⟩ := Option.bind_eq_some_iff.mp h
  obtain ⟨skins, hskins, rfl⟩ := Option.map_eq_some_iff.mp h
  obtain ⟨uuid, r, -, hrunning, -⟩ := SingleFlight.finish_cases hskins
  obtain rfl := Option.some.inj (hload.symm.trans hrunning)
  have hserved := SingleFlight.finish_served hskins hrunning
  rw [countSkinHit, hserved]
  exact .finishSkin exchange hload hskins

theorem step_moves {e : Event} (h : (system expiry config client).step s e = some t) :
    Moves expiry config client s t := by
  cases e with
  | lookupUuid name => exact moves_of_lookupUuid h
  | lookupSkin uuid => exact Option.some.inj h ▸ moves_of_lookupSkin uuid
  | names e =>
    simp only [system, Option.ite_none_right_eq_some] at h
    obtain ⟨hinternal, h⟩ := h
    obtain ⟨lookup, hlookup, rfl⟩ := Option.map_eq_some_iff.mp h
    exact .names hinternal hlookup
  | enterSkin r => exact moves_of_enterSkin h
  | finishSkin i exchange => exact moves_of_finishSkin h
  | wakeSkin r =>
    obtain ⟨skins, hskins, rfl⟩ := Option.map_eq_some_iff.mp h
    exact .wakeSkin hskins
  | dropSkin r =>
    obtain ⟨skins, hskins, rfl⟩ := Option.map_eq_some_iff.mp h
    exact .dropSkin hskins
  | evictSkin uuid => exact Option.some.inj h ▸ .evictSkin uuid
  | elapse d => exact Option.some.inj h ▸ .elapse d

theorem lookup_simulation : Machine.Simulation (system expiry config client)
    (Lookup.system expiry config client.service) State.lookup where
  init := rfl
  step s e t h := by
    cases step_moves h with
    | rejectName => exact Machine.leads_step (e := .count _) rfl
    | @callName name lookup hlookup =>
      exact (Machine.leads_step (e := .count s.metrics.incrementUuidRequests) rfl).trans
        (Machine.leads_step (e := .lookup name) hlookup)
    | rejectUuid => exact Machine.leads_step (e := .count _) rfl
    | callUuid => exact Machine.leads_step (e := .count _) rfl
    | names _ hlookup => exact Machine.leads_step hlookup
    | enterSkin => exact Machine.leads_step (e := .count _) rfl
    | loadSkin => exact Machine.leads_step (e := .count _) rfl
    | finishSkin => exact Machine.leads_step (e := .count _) rfl
    | wakeSkin => exact Machine.leads_step (e := .count _) rfl
    | dropSkin => exact Machine.leads_refl _
    | evictSkin => exact Machine.leads_refl _
    | elapse d => exact Machine.leads_step (e := .elapse d) rfl

theorem skins_simulation : Machine.Simulation (system expiry config client)
    (SingleFlight.machine expiry.ttlFor) State.skins where
  init := rfl
  step s e t h := by
    cases step_moves h with
    | rejectName => exact Machine.leads_refl _
    | callName => exact Machine.leads_refl _
    | rejectUuid => exact Machine.leads_refl _
    | callUuid uuid => exact Machine.leads_step (e := .call uuid) rfl
    | names => exact Machine.leads_refl _
    | @enterSkin r skins hskins => exact Machine.leads_step (e := .enter r) hskins
    | @loadSkin r skins uuid hskins => exact Machine.leads_step (e := .enter r) hskins
    | @finishSkin i r skins uuid exchange _ hskins =>
      exact Machine.leads_step (e := .finish i _) hskins
    | @wakeSkin r skins hskins => exact Machine.leads_step (e := .wake r) hskins
    | @dropSkin r skins hskins => exact Machine.leads_step (e := .drop r) hskins
    | evictSkin uuid => exact Machine.leads_step (e := .evict uuid) rfl
    | elapse d => exact Machine.leads_step (e := .elapse d) rfl

end Steps
end MojangApi.App
