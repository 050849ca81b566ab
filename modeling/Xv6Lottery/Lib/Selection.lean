import Mathlib.Algebra.Order.BigOperators.Group.Finset
import Mathlib.Algebra.Order.Floor.Div
import Mathlib.Data.Int.CardIntervalMod

/-! Weighted selection by a running sum: a draw below the total weight picks
the first item whose cumulative weight exceeds it. -/

namespace Selection

open Finset

def total (weight : item → Nat) (items : List item) : Nat :=
  (items.map weight).sum

def select (weight : item → Nat) (draw : Nat) : Nat → List item → Option item
  | _, [] => none
  | passed, candidate :: rest =>
    if draw < passed + weight candidate then some candidate
    else select weight draw (passed + weight candidate) rest

@[simp] theorem total_nil (weight : item → Nat) : total weight [] = 0 := rfl

@[simp] theorem total_cons (weight : item → Nat) :
    total weight (candidate :: rest) = weight candidate + total weight rest := by
  simp [total]

theorem le_total (weight : item → Nat) (member : candidate ∈ items) :
    weight candidate ≤ total weight items := by
  induction items with
  | nil => cases member
  | cons other rest induction =>
    rw [total_cons]
    rcases List.mem_cons.mp member with rfl | member
    · exact Nat.le_add_right _ _
    · exact (induction member).trans (Nat.le_add_left _ _)

theorem select_mem (selected : select weight draw passed items = some winner) : winner ∈ items := by
  induction items generalizing passed with
  | nil => cases selected
  | cons candidate rest induction =>
    unfold select at selected
    split at selected
    · cases selected
      exact List.mem_cons_self
    · exact List.mem_cons_of_mem candidate (induction selected)

theorem select_isSome (bound : draw < passed + total weight items) (started : passed ≤ draw) :
    (select weight draw passed items).isSome := by
  induction items generalizing passed with
  | nil =>
    rw [total_nil] at bound
    omega
  | cons candidate rest induction =>
    rw [total_cons] at bound
    unfold select
    split
    · rfl
    · exact induction (by omega) (by omega)

/-- The draws that pick an item form an interval as long as its weight. -/
theorem select_eq_some_iff (distinct : (earlier ++ winner :: later).Nodup)
    (started : passed ≤ draw) :
    select weight draw passed (earlier ++ winner :: later) = some winner ↔
      passed + total weight earlier ≤ draw ∧ draw <
      passed + total weight earlier + weight winner := by
  induction earlier generalizing passed with
  | nil =>
    have fresh : winner ∉ later := (List.nodup_cons.mp distinct).1
    rw [List.nil_append, total_nil, select]
    split
    · simp only [true_iff]
      omega
    · constructor
      · intro selected
        exact absurd (select_mem selected) fresh
      · omega
  | cons candidate rest induction =>
    rw [List.cons_append] at distinct
    obtain ⟨fresh, distinct⟩ := List.nodup_cons.mp distinct
    have differs : candidate ≠ winner := by
      rintro rfl
      exact fresh (by simp)
    rw [List.cons_append, select, total_cons]
    split
    · simp only [Option.some.injEq, differs, false_iff]
      omega
    · rw [induction distinct (by omega)]
      omega

theorem card_select [DecidableEq item] {weight : item → Nat} (distinct : items.Nodup)
    (member : winner ∈ items) :
    ((range (total weight items)).filter fun draw => select weight draw 0 items =
        some winner).card = weight winner := by
  obtain ⟨earlier, later, rfl⟩ := List.append_of_mem member
  have interval : ((range (total weight (earlier ++ winner :: later))).filter fun draw =>
          select weight draw 0 (earlier ++ winner :: later) = some winner) =
        Ico (total weight earlier) (total weight earlier + weight winner) := by
    ext draw
    rw [mem_filter, mem_range, mem_Ico, select_eq_some_iff distinct (Nat.zero_le draw)]
    simp only [total, List.map_append, List.map_cons, List.sum_append, List.sum_cons]
    omega
  rw [interval, Nat.card_Ico]
  omega

/-! A draw taken modulo the total is fair up to one round of the modulus. -/

theorem card_residue (bound : residue < modulus) (size : Nat) :
    ((range size).filter fun value => value % modulus = residue).card =
      size / modulus + if residue < size % modulus then 1 else 0 := by
  have counted :=
    Nat.count_modEq_card size (Nat.zero_lt_of_lt bound) residue
  rw [Nat.count_eq_card_filter_range, Nat.mod_eq_of_lt bound] at counted
  simpa only [Nat.ModEq, Nat.mod_eq_of_lt bound] using counted

theorem card_residue_le_ceilDiv (bound : residue < modulus) (size : Nat) :
    ((range size).filter fun value => value % modulus = residue).card ≤ size ⌈/⌉ modulus := by
  have positive : 0 < modulus := Nat.zero_lt_of_lt bound
  have decomposed := Nat.div_add_mod size modulus
  rw [card_residue bound, Nat.ceilDiv_eq_add_pred_div,
    Nat.le_div_iff_mul_le positive, Nat.add_mul, Nat.mul_comm]
  split <;> omega

theorem card_mod_fiberwise (chosen : Finset Nat) (size modulus : Nat) :
    ((range size).filter fun value => value % modulus ∈ chosen).card = ∑ residue ∈ chosen,
      ((range size).filter fun value => value % modulus = residue).card := by
  rw [card_eq_sum_card_fiberwise (f := fun value => value % modulus) (t := chosen)]
  · refine sum_congr rfl fun residue member => congrArg card ?_
    ext value
    simp only [mem_filter]
    constructor
    · rintro ⟨⟨inside, _⟩, equal⟩
      exact ⟨inside, equal⟩
    · rintro ⟨inside, equal⟩
      exact ⟨⟨inside, equal ▸ member⟩, equal⟩
  · intro value member
    exact (mem_filter.mp member).2

theorem card_mod_bounds {chosen : Finset Nat} (below : ∀ residue ∈ chosen, residue < modulus)
    (size : Nat) :
    chosen.card * (size / modulus) ≤ ((range size).filter fun value => value % modulus ∈
        chosen).card ∧ ((range size).filter fun value => value % modulus ∈ chosen).card ≤
      chosen.card * (size ⌈/⌉ modulus) := by
  rw [card_mod_fiberwise, ← smul_eq_mul, ← smul_eq_mul]
  constructor
  · refine card_nsmul_le_sum _ _ _ fun residue member => ?_
    rw [card_residue (below residue member)]
    exact Nat.le_add_right _ _
  · exact sum_le_card_nsmul _ _ _ fun residue member =>
      card_residue_le_ceilDiv (below residue member) size

end Selection
