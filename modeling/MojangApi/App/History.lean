import MojangApi.App.Moves
import MojangApi.Library.Progress
import MojangApi.Library.SingleFlight.Origins
import MojangApi.Lookup.History
import MojangApi.Mojang.Outcomes

/-! # What the state says about the events that led to it

Every handler belongs to the text it was called with, every cache key was read off
such a text, and every answer is what some exchange of the run meant.
-/

namespace MojangApi.App
open MojangApi Library Mojang

variable {U : Type}

/-- The texts that `lookup_uuid` was called with, in their order. -/
def nameTexts (es : List Event) : List Str :=
  es.filterMap fun
    | .lookupUuid name => some name
    | _ => none

/-- The texts that `lookup_skin` was called with, in their order. -/
def uuidTexts (es : List Event) : List Str :=
  es.filterMap fun
    | .lookupSkin value => some value
    | _ => none

def validName (name : Str) : Option Str := if isValidMinecraftUsername name then some name else none

/-- The handler of a text: it rejects the text, or has a cache call for the key in it. -/
def Handles {κ : Type} (key : Str → Option κ) (keys : List κ) (text : Str) : Option ℕ → Prop
  | none => key text = none
  | some r => ∃ k, key text = some k ∧ keys[r]? = some k

/-- The handlers and cache calls are those of the texts. -/
structure Heard {κ : Type} (key : Str → Option κ) (texts : List Str) (keys : List κ)
    (handlers : List (Option ℕ)) : Prop where
  called : keys = texts.filterMap key
  handled : List.Forall₂ (Handles key keys) texts handlers

section Hearing
variable {κ : Type} {key : Str → Option κ} {texts : List Str} {keys : List κ} {text : Str}
  {handlers : List (Option ℕ)}

theorem Handles.mono {handler : Option ℕ} (h : Handles key keys text handler) (k : κ) :
    Handles key (keys ++ [k]) text handler := by
  cases handler with
  | none => exact h
  | some r =>
    obtain ⟨k', hkey, hr⟩ := h
    exact ⟨k', hkey, getElem?_append_of_some hr _⟩

theorem heard_nil : Heard key [] [] [] := ⟨rfl, .nil⟩

theorem Heard.reject (h : Heard key texts keys handlers) (htext : key text = none) :
    Heard key (texts ++ [text]) keys (handlers ++ [none]) where
  called := by simp [h.called, htext]
  handled := List.rel_append h.handled (.cons htext .nil)

theorem Heard.call (h : Heard key texts keys handlers) {k : κ} (htext : key text = some k) :
    Heard key (texts ++ [text]) (keys ++ [k]) (handlers ++ [some keys.length]) where
  called := by simp [h.called, htext]
  handled := by
    refine List.rel_append (h.handled.imp fun _ _ hold => hold.mono k) (.cons ?_ .nil)
    exact ⟨k, htext, by simp⟩

/-- The handler with number `k` and its text. -/
theorem Heard.handler (h : Heard key texts keys handlers) {k : ℕ} {handler : Option ℕ}
    (hk : handlers[k]? = some handler) :
    ∃ text, texts[k]? = some text ∧ Handles key keys text handler := by
  obtain ⟨hlt, rfl⟩ := List.getElem?_eq_some_iff.mp hk
  have hlt' : k < texts.length := h.handled.length_eq ▸ hlt
  exact ⟨texts[k], List.getElem?_eq_getElem hlt', (List.forall₂_iff_get.mp h.handled).2 k hlt' hlt⟩

end Hearing

section Texts
variable {expiry : Cache.OptionalValueExpiry} {config : Batch.BatchConfig}
  {client : MojangHttpClient U} {s t : State} {es : List Event}

/-- Both kinds of handlers. -/
structure Hears (client : MojangHttpClient U) (es : List Event) (s : State) : Prop where
  names : Heard validName (nameTexts es) s.lookup.requests s.uuidHandlers
  uuids : Heard (parseMinecraftUuid client.libraries.parseStr) (uuidTexts es)
    (s.skins.callers.map SingleFlight.Caller.key) s.skinHandlers

/-- An internal step of the lookups is not a request. -/
theorem requests_internal {lookup lookup' : Lookup.State} {e : Lookup.Event Exchange}
    (hinternal : isInternal e = true)
    (h : (Lookup.system expiry config client.service).step lookup e = some lookup') :
    lookup'.requests = lookup.requests := by
  cases Lookup.step_moves h with
  | lookup => cases hinternal
  | _ => rfl

/-- The events that are no call of a handler. -/
theorem Hears.same (h : Hears client es s) {e : Event}
    (hnames : nameTexts (es ++ [e]) = nameTexts es) (huuids : uuidTexts (es ++ [e]) = uuidTexts es)
    (hrequests : t.lookup.requests = s.lookup.requests)
    (hkeys : t.skins.callers.map SingleFlight.Caller.key =
      s.skins.callers.map SingleFlight.Caller.key)
    (huuidHandlers : t.uuidHandlers = s.uuidHandlers)
    (hskinHandlers : t.skinHandlers = s.skinHandlers) : Hears client (es ++ [e]) t where
  names := by
    rw [hnames, hrequests, huuidHandlers]
    exact h.names
  uuids := by
    rw [huuids, hkeys, hskinHandlers]
    exact h.uuids

theorem Hears.lookupUuid (h : Hears client es s)
    (hlength : s.lookup.cache.callers.length = s.lookup.requests.length) {name : Str}
    (ht : s.lookupUuid name = some t) : Hears client (es ++ [.lookupUuid name]) t := by
  have hnames : nameTexts (es ++ [.lookupUuid name]) = nameTexts es ++ [name] :=
    List.filterMap_append
  have huuids : uuidTexts (es ++ [.lookupUuid name]) = uuidTexts es := by
    simp [uuidTexts, List.filterMap_append]
  unfold State.lookupUuid at ht
  dsimp only at ht
  split at ht
  · rename_i hinvalid
    obtain rfl := Option.some.inj ht
    refine ⟨?_, by rw [huuids]; exact h.uuids⟩
    rw [hnames]
    exact h.names.reject (if_neg (by simpa using hinvalid))
  · rename_i hvalid
    obtain ⟨lookup, hlookup, rfl⟩ := Option.map_eq_some_iff.mp ht
    obtain rfl := Lookup.lookup_eq_some hlookup
    refine ⟨?_, by rw [huuids]; exact h.uuids⟩
    rw [hnames]
    have hcall := h.names.call (k := name) (show validName name = some name from if_pos (by simpa using hvalid))
    rwa [← hlength] at hcall

theorem Hears.lookupSkin (h : Hears client es s) (value : Str) :
    Hears client (es ++ [.lookupSkin value]) (s.lookupSkin client value) := by
  have hnames : nameTexts (es ++ [.lookupSkin value]) = nameTexts es := by
    simp [nameTexts, List.filterMap_append]
  have huuids : uuidTexts (es ++ [.lookupSkin value]) = uuidTexts es ++ [value] :=
    List.filterMap_append
  unfold State.lookupSkin
  dsimp only
  split
  · rename_i hparse
    refine ⟨by rw [hnames]; exact h.names, ?_⟩
    rw [huuids]
    exact h.uuids.reject hparse
  · rename_i uuid hparse
    refine ⟨by rw [hnames]; exact h.names, ?_⟩
    rw [huuids]
    have hcall := h.uuids.call hparse
    simpa [SingleFlight.State.call] using hcall

theorem Hears.step (h : Hears client es s) (hr : (system expiry config client).Reachable s)
    {e : Event} (ht : (system expiry config client).step s e = some t) :
    Hears client (es ++ [e]) t := by
  have hlength : s.lookup.cache.callers.length = s.lookup.requests.length := by
    simpa using congrArg List.length (Lookup.reachable_linked (lookup_simulation.reachable hr)).keys
  cases e with
  | lookupUuid name => exact h.lookupUuid hlength ht
  | lookupSkin value => exact Option.some.inj ht ▸ h.lookupSkin value
  | names e =>
    simp only [system, Option.ite_none_right_eq_some] at ht
    obtain ⟨hinternal, ht⟩ := ht
    obtain ⟨lookup, hlookup, rfl⟩ := Option.map_eq_some_iff.mp ht
    exact h.same (by simp [nameTexts]) (by simp [uuidTexts]) (requests_internal hinternal hlookup)
      rfl rfl rfl
  | enterSkin r =>
    obtain ⟨skins, hskins, rfl⟩ := Option.map_eq_some_iff.mp ht
    have hkeys := SingleFlight.enter_keys hskins
    split <;> exact h.same (by simp [nameTexts]) (by simp [uuidTexts]) rfl hkeys rfl rfl
  | finishSkin i exchange =>
    obtain ⟨load, -, ht⟩ := Option.bind_eq_some_iff.mp ht
    obtain ⟨skins, hskins, rfl⟩ := Option.map_eq_some_iff.mp ht
    exact h.same (by simp [nameTexts]) (by simp [uuidTexts]) rfl (SingleFlight.finish_keys hskins)
      rfl rfl
  | wakeSkin r =>
    obtain ⟨skins, hskins, rfl⟩ := Option.map_eq_some_iff.mp ht
    exact h.same (by simp [nameTexts]) (by simp [uuidTexts]) rfl (SingleFlight.wake_keys hskins)
      rfl rfl
  | dropSkin r =>
    obtain ⟨skins, hskins, rfl⟩ := Option.map_eq_some_iff.mp ht
    exact h.same (by simp [nameTexts]) (by simp [uuidTexts]) rfl (SingleFlight.drop_keys hskins)
      rfl rfl
  | evictSkin uuid =>
    obtain rfl := Option.some.inj ht
    exact h.same (by simp [nameTexts]) (by simp [uuidTexts]) rfl rfl rfl rfl
  | elapse d =>
    obtain rfl := Option.some.inj ht
    exact h.same (by simp [nameTexts]) (by simp [uuidTexts]) rfl rfl rfl rfl

theorem hears_run (h : (system expiry config client).run es = some s) : Hears client es s := by
  refine Machine.runFrom_history (P := fun es s => Hears client es s) ⟨heard_nil, heard_nil⟩ ?_ h
  intro es u e v hu hears hv
  exact hears.step (Machine.reachable_of_run hu) hv

end Texts
end MojangApi.App
