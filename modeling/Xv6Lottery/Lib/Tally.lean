import Mathlib.Algebra.BigOperators.Group.Finset.Piecewise

/-! A sum over a family of which one member changes. -/

namespace Tally

open Function

variable {index value total : Type} [DecidableEq index] [AddCommMonoid total]

theorem sum_update (indices : Finset index) (weight : value → total) (family : index → value)
    (member : changed ∈ indices) (fresh : value) :
    ∑ i ∈ indices, weight (update family changed fresh i) + weight (family changed) = ∑ i ∈ indices,
      weight (family i) + weight fresh := by
  have rest : ∀ i ∈ indices.erase changed,
      weight (update family changed fresh i) = weight (family i) := by
    intro i inside
    rw [update_of_ne (Finset.ne_of_mem_erase inside)]
  rw [← Finset.add_sum_erase indices _ member,
    ← Finset.add_sum_erase indices (fun i => weight (family i)) member,
    update_self, Finset.sum_congr rfl rest]
  ac_rfl

end Tally
