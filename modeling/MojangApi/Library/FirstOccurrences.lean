import Mathlib.Data.Finset.Lattice.Lemmas
import Mathlib.Data.List.Induction
import Mathlib.Data.List.Nodup

/-! # First occurrences

A list without repeats, grown together with the set of what is in it, is the list
of first occurrences of all that was offered.
-/

namespace MojangApi.Library.FirstOccurrences
variable {α : Type*} [DecidableEq α]

/-- The list and the set after one more element was offered. -/
def offer (state : List α × Finset α) (a : α) : List α × Finset α :=
  if a ∈ state.2 then state else (state.1 ++ [a], insert a state.2)

theorem eraseDups_snoc (l : List α) (a : α) :
    (l ++ [a]).eraseDups = if a ∈ l then l.eraseDups else l.eraseDups ++ [a] := by
  rw [List.eraseDups_append]
  by_cases h : a ∈ l
  · simp [List.removeAll, h]
  · simp [List.removeAll, h, List.eraseDups_cons]

/-- The list and the set stay in step. -/
theorem foldl_offer (l : List α) : l.foldl offer ([], ∅) = (l.eraseDups, l.toFinset) := by
  induction l using List.reverseRecOn with
  | nil => rfl
  | append_singleton l a ih =>
    have hset : (l ++ [a]).toFinset = insert a l.toFinset := by
      rw [List.toFinset_append, Finset.union_comm]
      rfl
    rw [List.foldl_append, ih, List.foldl_cons, List.foldl_nil, offer, eraseDups_snoc, hset]
    by_cases h : a ∈ l
    · rw [if_pos (List.mem_toFinset.mpr h), if_pos h,
        Finset.insert_eq_of_mem (List.mem_toFinset.mpr h)]
    · rw [if_neg (by simpa using h), if_neg h]

theorem nodup_eraseDups (l : List α) : l.eraseDups.Nodup := by
  induction l using List.reverseRecOn with
  | nil => exact List.nodup_nil
  | append_singleton l a ih =>
    rw [eraseDups_snoc]
    by_cases h : a ∈ l
    · rwa [if_pos h]
    · rw [if_neg h]
      exact ih.append (List.nodup_singleton a) (by simpa using h)

/-- What stays is in the order of first occurrences. -/
theorem pairwise_eraseDups (l : List α) :
    l.eraseDups.Pairwise fun a b => l.idxOf a < l.idxOf b := by
  induction l using List.reverseRecOn with
  | nil => exact .nil
  | append_singleton l c ih =>
    have hold : ∀ a ∈ l, (l ++ [c]).idxOf a = l.idxOf a := fun a ha =>
      List.idxOf_append_of_mem ha
    have hkept : l.eraseDups.Pairwise fun a b => (l ++ [c]).idxOf a < (l ++ [c]).idxOf b := by
      apply ih.imp_of_mem
      intro a b ha hb hlt
      rwa [hold a (List.mem_eraseDups.mp ha), hold b (List.mem_eraseDups.mp hb)]
    rw [eraseDups_snoc]
    by_cases h : c ∈ l
    · rwa [if_pos h]
    · rw [if_neg h, List.pairwise_append]
      refine ⟨hkept, List.pairwise_singleton _ _, fun a ha b hb => ?_⟩
      obtain rfl := List.mem_singleton.mp hb
      have ha := List.mem_eraseDups.mp ha
      rw [hold a ha, List.idxOf_append_of_notMem h]
      exact Nat.lt_of_lt_of_le (List.idxOf_lt_length_iff.mpr ha) (Nat.le_add_right _ _)

/-- Offering again what was offered already makes no difference. -/
theorem eraseDups_repeat {l : List α} {a : α} (h : a ∈ l) (m : List α) :
    (l ++ a :: m).eraseDups = (l ++ m).eraseDups := by
  have hremove : (a :: m).removeAll l = m.removeAll l := by simp [List.removeAll, h]
  rw [List.eraseDups_append, List.eraseDups_append, hremove]

end MojangApi.Library.FirstOccurrences
