import MojangApi.Mojang.Accounting

/-! # An exchange is accounted for once and answered in full

Every way out of a call adds one request, one error if it is an error, and the
bytes of a body that came whole. A list of profiles is only returned when every
entry of the decoded body has become a pair.
-/

namespace MojangApi.Mojang
open MojangApi

section Results
variable {U : Type} {client : MojangHttpClient U} {exchange : Exchange} {metrics : Metrics}

/-- A body is only returned when the exchange delivered all of it. -/
theorem sendFinish_ok {response : ℕ × Bytes}
    (h : ((sendFinish exchange).run.run metrics).1 = .ok response) :
    ∃ contentLength chunks, exchange = .responded response.1 contentLength chunks none ∧
      response.2 = chunks.flatten := by
  cases exchange with
  | failed timeout => cases h
  | responded status contentLength chunks failure =>
    cases failure with
    | some timeout =>
      rcases sendFinish_broken status contentLength chunks timeout with hsend | hsend
      · rw [hsend] at h
        cases h
      · rw [hsend] at h
        cases h
    | none =>
      by_cases hwithin : WithinLimit contentLength chunks.flatten
      · rw [sendFinish_within hwithin] at h
        obtain rfl := Except.ok.inj h
        exact ⟨contentLength, chunks, rfl, rfl⟩
      · rw [sendFinish_beyond hwithin] at h
        cases h

/-- The pair a profile becomes. -/
def PairOf (parseStr : Str → Option Uuid) (profile : MojangBatchProfile) (pair : Str × Uuid) :
    Prop := profile.name = pair.1 ∧ parseMinecraftUuid parseStr profile.id = some pair.2

theorem collectProfiles_ok {profiles : List MojangBatchProfile} {pairs : Batch.Profiles}
    (h : ((client.collectProfiles profiles).run.run metrics).1 = .ok pairs) :
    List.Forall₂ (PairOf client.libraries.parseStr) profiles pairs := by
  induction profiles generalizing metrics pairs with
  | nil =>
    obtain rfl := Except.ok.inj h
    exact .nil
  | cons profile profiles ih =>
    rw [MojangHttpClient.collectProfiles, List.mapM_cons] at h
    obtain ⟨pair, hpair, h⟩ := ok_of_bind h
    obtain ⟨rest, hrest, h⟩ := ok_of_bind h
    obtain rfl := Except.ok.inj h
    refine .cons ?_ (ih hrest)
    cases hparse : parseMinecraftUuid client.libraries.parseStr profile.id with
    | none =>
      rw [hparse] at hpair
      cases hpair
    | some uuid =>
      rw [hparse] at hpair
      obtain rfl := Except.ok.inj hpair
      exact ⟨rfl, hparse⟩

/-- What an answer to `lookup_names` was made from. -/
def AnswerOf (libraries : Libraries U) (exchange : Exchange) (pairs : Batch.Profiles) : Prop :=
  ∃ status contentLength chunks profiles,
    exchange = .responded status contentLength chunks none ∧ isSuccess status = true ∧
    libraries.profilesFromSlice chunks.flatten = some profiles ∧
    List.Forall₂ (PairOf libraries.parseStr) profiles pairs

theorem lookupNamesFinish_ok {pairs : Batch.Profiles}
    (h : ((client.lookupNamesFinish exchange).run.run metrics).1 = .ok pairs) :
    AnswerOf client.libraries exchange pairs := by
  obtain ⟨⟨status, body⟩, hsend, h⟩ := ok_of_bind h
  obtain ⟨contentLength, chunks, rfl, rfl⟩ := sendFinish_ok hsend
  dsimp only at h
  split at h
  · cases h
  · rename_i hsuccess
    cases hdecoded : client.libraries.profilesFromSlice chunks.flatten with
    | none =>
      rw [hdecoded] at h
      cases h
    | some profiles =>
      rw [hdecoded] at h
      exact ⟨status, contentLength, chunks, profiles, rfl, by simpa using hsuccess, hdecoded,
        collectProfiles_ok h⟩

end Results

/-- A call, made of a stretch that sends a request and one that follows the exchange, grows
the counters once, whatever the others do to them while it waits. -/
structure AccountedOnce {U α : Type} (start : Counting (Request U)) (rest : Counting α)
    (exchange : Exchange) (sentBytes : ℕ) : Prop where
  started : ∀ before : Metrics, before.Grows (start.run.run before).2 (sent sentBytes)
  finished : ∀ meanwhile : Metrics,
    meanwhile.Grows (MojangHttpClient.afterStart start rest meanwhile).1
      (received exchange.receivedBytes
        (failures (MojangHttpClient.afterStart start rest meanwhile).2))
  whole : ∀ before : Metrics, before.Grows ((start >>= fun _ => rest).run.run before).2 fun c =>
    sent sentBytes c + received exchange.receivedBytes
      (failures ((start >>= fun _ => rest).run.run before).1) c

section Calls
variable {U α : Type} {start : Counting (Request U)} {rest : Counting α} {exchange : Exchange}
  {sentBytes : ℕ}

theorem accountedOnce (hstart : MojangHttpClient.SendsBytes start sentBytes)
    (hrest : Accounts rest exchange.receivedBytes) :
    AccountedOnce start rest exchange sentBytes where
  started before := (hstart before).2
  finished meanwhile := by
    rw [MojangHttpClient.afterStart_eq hstart.sends]
    exact hrest meanwhile
  whole before := by
    obtain ⟨⟨request, hrequest⟩, hsent⟩ := hstart before
    rw [run_bind_ok hrequest]
    exact hsent.trans (hrest _)

end Calls

/-- Whatever the transport does, a call that ends has counted one request, its error if it is
one, and the bytes of a body that came whole. No list of names is ever partial. -/
theorem exchanges_accounted {U : Type} (client : MojangHttpClient U) (hclient : client.Reliable)
    (exchange : Exchange) :
    (∀ names, ∃ body, client.libraries.toVec names = some body ∧
      AccountedOnce (client.lookupNamesStart names) (client.lookupNamesFinish exchange) exchange
        body.length) ∧
    (∀ uuid, AccountedOnce (client.lookupSkinStart uuid) (client.lookupSkinFinish exchange)
      exchange 0) ∧
    ∀ names metrics pairs, (MojangHttpClient.afterStart (client.lookupNamesStart names)
      (client.lookupNamesFinish exchange) metrics).2 = .ok pairs →
        AnswerOf client.libraries exchange pairs := by
  refine ⟨fun names => ?_, fun uuid => ?_, fun names metrics pairs h => ?_⟩
  · obtain ⟨body, hbody, hsends⟩ := MojangHttpClient.sends_lookupNamesStart hclient names
    exact ⟨body, hbody,
      accountedOnce hsends (MojangHttpClient.accounts_lookupNamesFinish client exchange)⟩
  · exact accountedOnce (MojangHttpClient.sends_lookupSkinStart hclient uuid)
      (MojangHttpClient.accounts_lookupSkinFinish client exchange)
  · obtain ⟨body, -, hsends⟩ := MojangHttpClient.sends_lookupNamesStart hclient names
    rw [MojangHttpClient.afterStart_eq hsends.sends] at h
    exact lookupNamesFinish_ok h

/-- A response that breaks off after two bytes: one request, one error, no bytes. -/
theorem exchanges_accounted_broken :
    AccountedOnce (productionClient.lookupNamesStart ["Steve".toList])
      (productionClient.lookupNamesFinish (.responded 200 none [[0x5B, 0x5D]] (some true)))
      (.responded 200 none [[0x5B, 0x5D]] (some true)) 9 := by
  obtain ⟨body, hbody, honce⟩ := (exchanges_accounted productionClient productionClient_reliable
    (.responded 200 none [[0x5B, 0x5D]] (some true))).1 ["Steve".toList]
  obtain rfl := Option.some.inj hbody
  exact honce

end MojangApi.Mojang
