import Mathlib.Data.Nat.Notation
import Mathlib.Tactic.Common

/-! # Lists in groups

A separator goes before every element with a multiple of `size` elements from it to
the end, except the first one. What comes out is groups of `size` elements, after a
first one that may be smaller, joined by the separator.
-/

namespace MojangApi.Library

variable {α : Type*} (sep : α) (size : ℕ)

/-- The elements with their separators, by index. -/
def separate (l : List α) : List α :=
  l.zipIdx.flatMap fun (x, index) =>
    if 0 < index && (l.length - index) % size = 0 then [sep, x] else [x]

/-- All elements but the first of a list. -/
def separateRest : List α → List α
  | [] => []
  | x :: l => (if (l.length + 1) % size = 0 then [sep, x] else [x]) ++ separateRest l

variable {sep size}

theorem separateRest_eq (l : List α) {total index : ℕ} (hindex : 0 < index)
    (htotal : total = l.length + index) :
    (l.zipIdx index).flatMap (fun (x, index) =>
      if 0 < index && (total - index) % size = 0 then [sep, x] else [x]) =
      separateRest sep size l := by
  induction l generalizing index with
  | nil => rfl
  | cons x l ih =>
    have hleft : total - index = l.length + 1 := by
      rw [htotal, List.length_cons]
      omega
    rw [List.zipIdx_cons, List.flatMap_cons, ih (Nat.succ_pos index) (by simp [htotal]; omega),
      separateRest]
    simp only [hleft, hindex, decide_true, Bool.true_and, decide_eq_true_eq]

theorem separate_cons (x : α) (l : List α) :
    separate sep size (x :: l) = x :: separateRest sep size l := by
  rw [separate, List.zipIdx_cons, List.flatMap_cons,
    separateRest_eq l Nat.one_pos (by simp)]
  rfl

/-- All elements but the first are what is missing of the first group, and then full groups. -/
theorem separateRest_groups (sep : α) (hsize : 0 < size) (l : List α) :
    ∃ (first : List α) (groups : List (List α)), separateRest sep size l = first ++ groups.flatMap (sep :: ·) ∧
      first ++ groups.flatten = l ∧ first.length = l.length % size ∧
      ∀ group ∈ groups, group.length = size := by
  induction l with
  | nil => exact ⟨[], [], rfl, rfl, by simp, by simp⟩
  | cons x l ih =>
    obtain ⟨first, groups, hrest, hl, hfirst, hgroups⟩ := ih
    have hlt := Nat.mod_lt l.length hsize
    rw [separateRest, hrest]
    by_cases hfull : (l.length + 1) % size = 0
    · refine ⟨[], (x :: first) :: groups, ?_, ?_, by simp [hfull], ?_⟩
      · simp [hfull]
      · simp [← hl]
      · intro group hgroup
        rcases List.mem_cons.mp hgroup with rfl | hgroup
        · have hsucc : l.length % size + 1 = size := by
            by_contra hne
            have hsmall : l.length % size + 1 < size := by omega
            rw [← Nat.mod_add_mod, Nat.mod_eq_of_lt hsmall] at hfull
            omega
          rw [List.length_cons, hfirst, hsucc]
        · exact hgroups group hgroup
    · refine ⟨x :: first, groups, by simp [hfull], by simp [← hl], ?_, hgroups⟩
      have hsmall : l.length % size + 1 < size := by
        by_contra hge
        have hsucc : l.length % size + 1 = size := by omega
        rw [← Nat.mod_add_mod, hsucc, Nat.mod_self] at hfull
        exact hfull rfl
      rw [List.length_cons, List.length_cons, hfirst, ← Nat.mod_add_mod, Nat.mod_eq_of_lt hsmall]

theorem intercalate_cons_flatMap (first : List α) (groups : List (List α)) :
    [sep].intercalate (first :: groups) = first ++ groups.flatMap (sep :: ·) := by
  induction groups generalizing first with
  | nil => simp
  | cons group groups ih => simp [ih]

/-- Groups that are joined by the separator: the first one is the only smaller one. -/
theorem separate_groups (sep : α) (hsize : 0 < size) {l : List α} (hl : l ≠ []) : ∃ first groups,
    separate sep size l = [sep].intercalate (first :: groups) ∧ (first :: groups).flatten = l ∧
      0 < first.length ∧ first.length ≤ size ∧ ∀ group ∈ groups, group.length = size := by
  obtain ⟨x, l, rfl⟩ := List.exists_cons_of_ne_nil hl
  obtain ⟨first, groups, hrest, hl, hfirst, hgroups⟩ := separateRest_groups sep hsize l
  refine ⟨x :: first, groups, ?_, by simp [← hl], by simp, ?_, hgroups⟩
  · rw [separate_cons, hrest, intercalate_cons_flatMap, List.cons_append]
  · rw [List.length_cons, hfirst]
    exact Nat.mod_lt _ hsize

/-- Without the separators the elements come back. -/
theorem flatten_splitOn_separate [BEq α] [LawfulBEq α] (hsize : 0 < size) {l : List α}
    (hl : l ≠ []) (hsep : sep ∉ l) : ((separate sep size l).splitOn sep).flatten = l := by
  obtain ⟨first, groups, hgroups, hflatten, -⟩ := separate_groups sep hsize hl
  rw [hgroups, List.splitOn_intercalate _ _ (List.cons_ne_nil _ _), hflatten]
  intro group hgroup hmem
  rw [← hflatten] at hsep
  exact hsep (List.mem_flatten_of_mem hgroup hmem)

theorem mem_separate {l : List α} {x : α} (h : x ∈ separate sep size l) : x = sep ∨ x ∈ l := by
  obtain ⟨⟨y, index⟩, hmem, hx⟩ := List.mem_flatMap.mp h
  have hy := List.fst_mem_of_mem_zipIdx hmem
  dsimp only at hx
  split at hx
  · rcases List.mem_cons.mp hx with rfl | hx
    · exact .inl rfl
    · exact .inr (List.mem_singleton.mp hx ▸ hy)
  · exact .inr (List.mem_singleton.mp hx ▸ hy)

theorem not_mem_intercalate {x : α} {between : List α} {ls : List (List α)} (hbetween : x ∉ between)
    (hls : ∀ l ∈ ls, x ∉ l) : x ∉ between.intercalate ls := by
  induction ls with
  | nil => simp
  | cons l ls ih =>
    have hl := hls l (List.mem_cons_self)
    have hrest := ih fun l' hl' => hls l' (List.mem_cons_of_mem _ hl')
    cases ls with
    | nil => simpa using hl
    | cons l' ls => simp [hl, hbetween, hrest]

/-- What a list is split at is in none of the pieces. -/
theorem not_mem_splitOnP {p : α → Bool} {x : α} (hx : p x = true) (l : List α) :
    ∀ piece ∈ l.splitOnP p, x ∉ piece := by
  induction l with
  | nil => simp
  | cons y l ih =>
    rw [List.splitOnP_cons_eq_if_modifyHead]
    split
    · intro piece hpiece
      rcases List.mem_cons.mp hpiece with rfl | hpiece
      · exact List.not_mem_nil
      · exact ih piece hpiece
    · rename_i hy
      obtain ⟨piece, pieces, hsplit⟩ := List.exists_cons_of_ne_nil (List.splitOnP_ne_nil p l)
      rw [hsplit] at ih ⊢
      have hne : x ≠ y := fun h => hy (h ▸ hx)
      intro piece' hpiece'
      rcases List.mem_cons.mp hpiece' with rfl | hpiece'
      · simp [hne, ih piece (List.mem_cons_self)]
      · exact ih piece' (List.mem_cons_of_mem _ hpiece')

end MojangApi.Library
