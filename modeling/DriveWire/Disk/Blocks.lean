import Mathlib

/-! # Blocks of a Byte Array

    A list seen as a sequence of blocks of `k` elements, and what overwriting
    a part of it does to its blocks.  The elements can be of any type. -/

namespace Blocks

variable {α : Type*}

/-! ## Section 1: Overwriting -/

/-- `xs` with `data` in place of what was at position `pos`.  A gap between
    the end of `xs` and `pos` is filled with `fill`. -/
def overwrite (fill : α) (xs : List α) (pos : Nat) (data : List α) : List α :=
  xs.take pos ++ List.replicate (pos - xs.length) fill ++ data ++ xs.drop (pos + data.length)

variable {fill : α} {xs data : List α} {pos : Nat}

theorem overwrite_eq (h : pos ≤ xs.length) :
    overwrite fill xs pos data = xs.take pos ++ data ++ xs.drop (pos + data.length) := by
  have hgap : pos - xs.length = 0 := by omega
  simp [overwrite, hgap]

/-- Overwriting inside of a list does not resize it. -/
theorem length_overwrite (h : pos + data.length ≤ xs.length) :
    (overwrite fill xs pos data).length = xs.length := by
  rw [overwrite_eq (by omega)]
  simp
  omega

/-- What is at each position after overwriting inside of a list. -/
theorem getElem?_overwrite (h : pos + data.length ≤ xs.length) (i : Nat) :
    (overwrite fill xs pos data)[i]? =
      if pos ≤ i ∧ i < pos + data.length then data[i - pos]? else xs[i]? := by
  have htake : (xs.take pos).length = pos := by
    rw [List.length_take]
    omega
  rw [overwrite_eq (by omega), List.append_assoc]
  by_cases hlow : i < pos
  · -- before the data
    rw [if_neg (by omega), List.getElem?_append_left (by omega), List.getElem?_take_of_lt hlow]
  · rw [List.getElem?_append_right (by omega), htake]
    by_cases hhigh : i < pos + data.length
    · rw [if_pos ⟨by omega, hhigh⟩, List.getElem?_append_left (by omega)]
    · -- behind the data
      rw [if_neg (by omega), List.getElem?_append_right (by omega), List.getElem?_drop]
      congr 1
      omega

/-! ## Section 2: Blocks -/

/-- Block `n` of `k` elements. -/
def block (k : Nat) (xs : List α) (n : Nat) : List α := (xs.drop (n * k)).take k

theorem length_block {k n : Nat} (h : (n + 1) * k ≤ xs.length) : (block k xs n).length = k := by
  rw [Nat.succ_mul] at h
  simp [block]
  omega

theorem getElem?_block {k n i : Nat} (hi : i < k) : (block k xs n)[i]? = xs[n * k + i]? := by
  rw [block, List.getElem?_take_of_lt hi, List.getElem?_drop]

/-- Positions in different blocks differ. -/
theorem block_disjoint {k m n i : Nat} (hne : m ≠ n) (hi : i < k) :
    ¬ (n * k ≤ m * k + i ∧ m * k + i < n * k + k) := by
  rintro ⟨hlow, hhigh⟩
  obtain hlt | hlt := Nat.lt_or_gt_of_ne hne
  · have : (m + 1) * k ≤ n * k := Nat.mul_le_mul_right k hlt
    rw [Nat.succ_mul] at this
    omega
  · have : (n + 1) * k ≤ m * k := Nat.mul_le_mul_right k hlt
    rw [Nat.succ_mul] at this
    omega

/-- **Overwriting one block** replaces this block and no other. -/
theorem block_overwrite {k n : Nat} (hdata : data.length = k) (h : (n + 1) * k ≤ xs.length)
    (m : Nat) :
    block k (overwrite fill xs (n * k) data) m = if m = n then data else block k xs m := by
  have hfit : n * k + data.length ≤ xs.length := by
    rw [Nat.succ_mul] at h
    omega
  by_cases hm : m = n
  · subst hm
    rw [if_pos rfl]
    apply List.ext_getElem?
    intro i
    by_cases hi : i < k
    · rw [getElem?_block hi, getElem?_overwrite hfit, if_pos ⟨by omega, by omega⟩]
      congr 1
      omega
    · -- both lists have `k` elements
      have hlen : (block k (overwrite fill xs (m * k) data) m).length = k := by
        apply length_block
        rwa [length_overwrite hfit]
      rw [List.getElem?_eq_none (by omega), List.getElem?_eq_none (by omega)]
  · rw [if_neg hm]
    apply List.ext_getElem?
    intro i
    by_cases hi : i < k
    · rw [getElem?_block hi, getElem?_block hi, getElem?_overwrite hfit, hdata,
        if_neg (block_disjoint hm hi)]
    · have hlen : ∀ ys : List α, (block k ys m)[i]? = none := by
        intro ys
        apply List.getElem?_eq_none
        simp [block]
        omega
      rw [hlen, hlen]

/-- What lies outside of all blocks below `count` stays as it is. -/
theorem drop_overwrite {k n count : Nat} (hdata : data.length = k) (hn : n < count)
    (h : count * k ≤ xs.length) :
    (overwrite fill xs (n * k) data).drop (count * k) = xs.drop (count * k) := by
  have hle : (n + 1) * k ≤ count * k := Nat.mul_le_mul_right k hn
  rw [Nat.succ_mul] at hle
  apply List.ext_getElem?
  intro i
  rw [List.getElem?_drop, List.getElem?_drop, getElem?_overwrite (by omega), if_neg (by omega)]

end Blocks
