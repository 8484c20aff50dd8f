import Mathlib.Algebra.BigOperators.Group.List.Basic
import Mathlib.Algebra.Ring.Nat

/-! # Updating one position of a list

How reading, and summing a weight over the positions, change when one element is
appended, replaced or removed; what holds at every position; and how a sorted
list is cut at one of them.
-/

namespace MojangApi.Library
variable {α : Type*}

theorem getElem?_set_some {l : List α} {i : ℕ} {a : α} (h : l[i]? = some a) (b : α) (j : ℕ) :
    (l.set i b)[j]? = if i = j then some b else l[j]? := by
  obtain ⟨hi, -⟩ := List.getElem?_eq_some_iff.mp h
  rw [List.getElem?_set]
  simp [hi]

theorem getElem?_append_some {l : List α} {i : ℕ} {a : α} (b : α) (h : (l ++ [b])[i]? = some a) :
    l[i]? = some a ∨ i = l.length ∧ a = b := by
  rcases Nat.lt_trichotomy i l.length with hi | rfl | hi
  · exact .inl (by rwa [List.getElem?_append_left hi] at h)
  · exact .inr ⟨rfl, by simpa using h.symm⟩
  · have : (l ++ [b]).length ≤ i := by simp; omega
    rw [List.getElem?_eq_none this] at h
    contradiction

theorem getElem?_append_of_some {l : List α} {i : ℕ} {a : α} (h : l[i]? = some a)
    (l' : List α) : (l ++ l')[i]? = some a := by
  obtain ⟨hi, -⟩ := List.getElem?_eq_some_iff.mp h
  rwa [List.getElem?_append_left hi]

theorem forall_mem_zipIdx {l : List α} {p : α × ℕ → Prop} :
    (∀ x ∈ l.zipIdx, p x) ↔ ∀ i a, l[i]? = some a → p (a, i) := by
  constructor
  · intro h i a ha
    exact h (a, i) (List.mk_mem_zipIdx_iff_getElem?.mpr ha)
  · rintro h ⟨a, i⟩ hmem
    exact h i a (List.mk_mem_zipIdx_iff_getElem?.mp hmem)

theorem pairwise_upTo {r : α → α → Prop} {l l' : List α} {a : α}
    (h : (l ++ a :: l').Pairwise r) : (l ++ [a]).Pairwise r :=
  h.sublist ((List.Sublist.refl l).append (by simp))

/-- Sorted up to an element, and from it on. -/
theorem pairwise_join {r : α → α → Prop} [IsTrans α r] {l l' : List α} {a : α}
    (hl : (l ++ [a]).Pairwise r) (hl' : (a :: l').Pairwise r) : (l ++ a :: l').Pairwise r := by
  rw [List.pairwise_append] at hl ⊢
  refine ⟨hl.1, hl', fun b hb c hc => ?_⟩
  have hba : r b a := hl.2.2 b hb a (by simp)
  rcases List.mem_cons.mp hc with rfl | hc
  · exact hba
  · exact IsTrans.trans b a c hba ((List.pairwise_cons.mp hl').1 c hc)

theorem sum_set {l : List α} {i : ℕ} {a : α} (f : α → ℕ) (h : l[i]? = some a) (b : α) :
    ((l.set i b).map f).sum + f a = (l.map f).sum + f b := by
  induction l generalizing i with
  | nil => simp at h
  | cons x l ih =>
    cases i with
    | zero =>
      obtain rfl : x = a := by simpa using h
      simp only [List.set_cons_zero, List.map_cons, List.sum_cons]
      omega
    | succ i =>
      have := ih (by simpa using h)
      simp only [List.set_cons_succ, List.map_cons, List.sum_cons]
      omega

theorem sum_eraseIdx {l : List α} {i : ℕ} {a : α} (f : α → ℕ) (h : l[i]? = some a) :
    ((l.eraseIdx i).map f).sum + f a = (l.map f).sum := by
  induction l generalizing i with
  | nil => simp at h
  | cons x l ih =>
    cases i with
    | zero =>
      obtain rfl : x = a := by simpa using h
      simp only [List.eraseIdx_cons_zero, List.map_cons, List.sum_cons]
      omega
    | succ i =>
      have := ih (by simpa using h)
      simp only [List.eraseIdx_cons_succ, List.map_cons, List.sum_cons]
      omega

/-- Two positions together weigh no more than the whole list. -/
theorem add_le_sum {l : List α} {i j : ℕ} {a b : α} (f : α → ℕ) (hi : l[i]? = some a)
    (hj : l[j]? = some b) (hne : i ≠ j) : f a + f b ≤ (l.map f).sum := by
  have hmem : b ∈ l.eraseIdx i := List.mem_eraseIdx_iff_getElem?.mpr ⟨j, hne.symm, hj⟩
  obtain ⟨k, hk⟩ := List.mem_iff_getElem?.mp hmem
  have hsum := sum_eraseIdx f hi
  have hrest := sum_eraseIdx f hk
  omega

theorem sum_le_mul_sum {l : List α} {f g : α → ℕ} {n : ℕ} (h : ∀ a ∈ l, f a ≤ n * g a) :
    (l.map f).sum ≤ n * (l.map g).sum := by
  induction l with
  | nil => simp
  | cons x l ih =>
    have hx := h x (by simp)
    have hl := ih fun a ha => h a (by simp [ha])
    rw [List.map_cons, List.sum_cons, List.map_cons, List.sum_cons, Nat.mul_add]
    omega

theorem sum_map_one (l : List α) : (l.map fun _ => 1).sum = l.length := by
  rw [List.map_const', List.sum_replicate_nat, Nat.mul_one]

theorem sum_le_mul_length {l : List α} {f : α → ℕ} {n : ℕ} (h : ∀ a ∈ l, f a ≤ n) :
    (l.map f).sum ≤ n * l.length := by
  rw [← sum_map_one l]
  exact sum_le_mul_sum fun a ha => (h a ha).trans_eq (Nat.mul_one n).symm

theorem length_le_sum {l : List α} {f : α → ℕ} (h : ∀ a ∈ l, 1 ≤ f a) :
    l.length ≤ (l.map f).sum := by
  rw [← sum_map_one l, ← Nat.one_mul (l.map f).sum]
  exact sum_le_mul_sum fun a ha => (h a ha).trans_eq (Nat.one_mul (f a)).symm

end MojangApi.Library
