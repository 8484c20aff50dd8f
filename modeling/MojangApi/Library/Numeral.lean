import Mathlib.Algebra.Order.Ring.Nat
import Mathlib.Data.List.Induction
import Mathlib.Tactic.Common

/-! # Numerals of a fixed width

Digits from the most significant one, padded with zeros to their width. Reading
them and writing them are inverse to each other, up to what the width can hold.
-/

namespace MojangApi.Library.Numeral

variable {base : ℕ}

/-- The number that digits denote. -/
def value (base : ℕ) (ds : List ℕ) : ℕ := ds.foldl (fun n d => base * n + d) 0

/-- The last `width` digits of a number. -/
def digits (base width n : ℕ) : List ℕ :=
  (List.range width).map fun i => n / base ^ (width - 1 - i) % base

theorem value_snoc (ds : List ℕ) (d : ℕ) : value base (ds ++ [d]) = base * value base ds + d := by
  simp [value]

theorem digits_succ (base width n : ℕ) :
    digits base (width + 1) n = digits base width (n / base) ++ [n % base] := by
  have hhigh : ∀ i ∈ List.range width, n / base ^ (width - i) % base =
      n / base / base ^ (width - 1 - i) % base := by
    intro i hi
    have hi := List.mem_range.mp hi
    have hexp : width - i = width - 1 - i + 1 := by omega
    rw [hexp, Nat.pow_succ, Nat.mul_comm, Nat.div_div_eq_div_mul]
  rw [digits, List.range_succ, List.map_append, digits]
  simp only [Nat.add_sub_cancel, List.map_cons, List.map_nil, Nat.sub_self, Nat.pow_zero,
    Nat.div_one]
  rw [List.map_congr_left hhigh]

theorem length_digits (base width n : ℕ) : (digits base width n).length = width := by
  simp [digits]

theorem digits_lt (hbase : 0 < base) {width n d : ℕ} (h : d ∈ digits base width n) :
    d < base := by
  obtain ⟨i, -, rfl⟩ := List.mem_map.mp h
  exact Nat.mod_lt _ hbase

/-- Written and read again, a number keeps its last digits. -/
theorem value_digits (base width n : ℕ) : value base (digits base width n) = n % base ^ width := by
  induction width generalizing n with
  | zero => simp [digits, value, Nat.mod_one]
  | succ width ih =>
    rw [digits_succ, value_snoc, ih, Nat.pow_succ, Nat.mul_comm (base ^ width) base,
      Nat.mod_mul]
    exact Nat.add_comm _ _

/-- Read and written again, digits come back. -/
theorem digits_value {ds : List ℕ} (h : ∀ d ∈ ds, d < base) :
    digits base ds.length (value base ds) = ds := by
  induction ds using List.reverseRecOn with
  | nil => rfl
  | append_singleton ds d ih =>
    have hd : d < base := h d (by simp)
    have hbase : 0 < base := Nat.zero_lt_of_lt hd
    have hhigh : (base * value base ds + d) / base = value base ds := by
      rw [Nat.mul_add_div hbase, Nat.div_eq_of_lt hd, Nat.add_zero]
    have hlow : (base * value base ds + d) % base = d := by
      rw [Nat.mul_add_mod, Nat.mod_eq_of_lt hd]
    rw [List.length_append, List.length_singleton, digits_succ, value_snoc, hhigh, hlow,
      ih fun e he => h e (List.mem_append_left _ he)]

theorem value_lt {ds : List ℕ} (h : ∀ d ∈ ds, d < base) : value base ds < base ^ ds.length := by
  cases ds with
  | nil => exact Nat.zero_lt_one
  | cons d ds =>
    rw [← digits_value h, value_digits, length_digits]
    exact Nat.mod_lt _ (Nat.pow_pos (Nat.zero_lt_of_lt (h d (by simp))))

end MojangApi.Library.Numeral
