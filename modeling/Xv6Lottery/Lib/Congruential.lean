import Mathlib.Algebra.BigOperators.Intervals
import Mathlib.Algebra.BigOperators.Ring.Finset
import Mathlib.Data.Nat.ModEq
import Mathlib.Data.Nat.Prime.Basic
import Mathlib.Logic.Function.Iterate
import Mathlib.Tactic.Ring

/-! Linear congruential generators modulo a power of two. When the multiplier
is one more than a multiple of four and the increment is odd, every window of
`2 ^ width` consecutive states visits every residue exactly once. -/

namespace Congruential

open Finset

def next (multiplier increment modulus state : Nat) : Nat :=
  (multiplier * state + increment) % modulus

/-- How many of the next states satisfy a predicate. -/
def visits (step : state → state) (wanted : state → Prop) [DecidablePred wanted] : Nat → state → Nat
  | 0, _ => 0
  | steps + 1, current =>
    (if wanted current then 1 else 0) + visits step wanted steps (step current)

theorem visits_eq_card (step : state → state) (wanted : state → Prop) [DecidablePred wanted]
    (steps : Nat) (current : state) :
    visits step wanted steps current = ((range steps).filter fun index => wanted
        (step^[index] current)).card := by
  induction steps generalizing current with
  | zero => rfl
  | succ steps induction =>
    rw [visits, induction, card_filter, card_filter, sum_range_succ', Nat.add_comm]
    rfl

/-! The distance between two states of one orbit is a geometric sum. -/

def geometric (multiplier steps : Nat) : Nat :=
  ∑ exponent ∈ range steps, multiplier ^ exponent

theorem geometric_succ (multiplier steps : Nat) :
    geometric multiplier (steps + 1) = multiplier * geometric multiplier steps + 1 := by
  unfold geometric
  rw [sum_range_succ', mul_sum]
  simp only [pow_succ', pow_zero]

theorem geometric_double (multiplier steps : Nat) :
    geometric multiplier (2 * steps) = geometric multiplier steps * (1 + multiplier ^ steps) := by
  unfold geometric
  rw [two_mul, sum_range_add, mul_add, mul_one, sum_mul]
  congr 1
  refine sum_congr rfl fun exponent _ => ?_
  rw [pow_add, mul_comm]

theorem pow_eq_geometric (slope steps : Nat) :
    (slope + 1) ^ steps = slope * geometric (slope + 1) steps + 1 := by
  induction steps with
  | zero => rfl
  | succ steps induction =>
    rw [geometric_succ, pow_succ', induction]
    ring

theorem geometric_mod_two (odd : multiplier % 2 = 1) (steps : Nat) :
    geometric multiplier steps % 2 = steps % 2 := by
  induction steps with
  | zero => rfl
  | succ steps induction =>
    rw [geometric_succ, Nat.add_mod, Nat.mul_mod, odd, induction]
    omega

theorem dvd_of_dvd_geometric (residue : multiplier % 4 = 1) (width : Nat) :
    ∀ steps, 2 ^ width ∣ geometric multiplier steps → 2 ^ width ∣ steps := by
  -- Halving `steps` strips one factor two from the sum, since
  -- `1 + multiplier ^ half` is twice an odd number.
  induction width with
  | zero =>
    intro steps _
    exact one_dvd steps
  | succ width induction =>
    intro steps divides
    have even : steps % 2 = 0 := by
      rw [← geometric_mod_two (by omega : multiplier % 2 = 1) steps]
      exact Nat.mod_eq_zero_of_dvd ((dvd_pow_self 2 (Nat.succ_ne_zero width)).trans divides)
    obtain ⟨half, rfl⟩ := Nat.dvd_of_mod_eq_zero even
    have power : multiplier ^ half % 4 = 1 := by
      rw [Nat.pow_mod, residue, one_pow]
      rfl
    obtain ⟨cofactor, split⟩ : ∃ cofactor, 1 + multiplier ^ half = 2 * (2 * cofactor + 1) :=
      ⟨multiplier ^ half / 4, by omega⟩
    rw [geometric_double, split, pow_succ', Nat.mul_left_comm] at divides
    have coprime : Nat.Coprime (2 ^ width) (2 * cofactor + 1) :=
      Nat.Coprime.pow_left width (by simp)
    rw [pow_succ']
    refine Nat.mul_dvd_mul_left 2 (induction half ?_)
    exact coprime.dvd_of_dvd_mul_right (Nat.dvd_of_mul_dvd_mul_left two_pos divides)

theorem iterate_next_modEq (multiplier increment modulus state steps : Nat) :
    (next multiplier increment modulus)^[steps] state ≡ multiplier ^ steps * state + increment *
      geometric multiplier steps [MOD modulus] := by
  induction steps with
  | zero =>
    rw [pow_zero, one_mul]
    rfl
  | succ steps induction =>
    rw [Function.iterate_succ_apply']
    calc next multiplier increment modulus ((next multiplier increment modulus)^[steps] state)
        ≡ multiplier * (next multiplier increment modulus)^[steps] state +
            increment [MOD modulus] := Nat.mod_modEq _ _
      _ ≡ multiplier * (multiplier ^ steps * state +
            increment * geometric multiplier steps) + increment
            [MOD modulus] := (induction.mul_left _).add_right _
      _ = multiplier ^ (steps + 1) * state + increment * geometric multiplier (steps + 1) := by
          rw [geometric_succ]
          ring

theorem next_lt (positive : 0 < modulus) : next multiplier increment modulus state < modulus :=
  Nat.mod_lt _ positive

theorem iterate_next_lt (bound : state < modulus) (steps : Nat) :
    (next multiplier increment modulus)^[steps] state < modulus := by
  cases steps with
  | zero => exact bound
  | succ steps =>
    rw [Function.iterate_succ_apply']
    exact next_lt (Nat.zero_lt_of_lt bound)

section FullPeriod

variable {multiplier increment width : Nat} (residue : multiplier % 4 = 1) (odd : increment % 2 = 1)

include residue odd

theorem dvd_of_iterate_next_eq
    (returns : (next multiplier increment (2 ^ width))^[gap] state = state) : 2 ^ width ∣ gap := by
  refine dvd_of_dvd_geometric residue width gap ?_
  obtain ⟨slope, rfl⟩ : ∃ slope, multiplier = slope + 1 :=
    ⟨multiplier - 1, by omega⟩
  have moved := iterate_next_modEq (slope + 1) increment (2 ^ width) state gap
  rw [returns, pow_eq_geometric slope gap] at moved
  have factored : (slope * geometric (slope + 1) gap + 1) * state +
          increment * geometric (slope + 1) gap =
        geometric (slope + 1) gap * (slope * state + increment) + state := by
    ring
  rw [factored] at moved
  have divides : 2 ^ width ∣ geometric (slope + 1) gap * (slope * state + increment) := by
    refine (Nat.modEq_zero_iff_dvd).mp ?_
    refine Nat.ModEq.add_right_cancel' state ?_
    rw [zero_add]
    exact moved.symm
  have coprime : Nat.Coprime (2 ^ width) (slope * state + increment) := by
    refine Nat.Coprime.pow_left width ?_
    rw [Nat.coprime_two_left, Nat.odd_iff, Nat.add_mod, Nat.mul_mod, odd,
      (by omega : slope % 2 = 0)]
    simp
  exact coprime.dvd_of_dvd_mul_right divides

theorem iterate_next_injOn (state : Nat) :
    Set.InjOn (fun steps => (next multiplier increment (2 ^ width))^[steps] state)
      (range (2 ^ width)) := by
  have apart : ∀ first second, first ≤ second → second < 2 ^ width →
      (next multiplier increment (2 ^ width))^[first] state =
        (next multiplier increment (2 ^ width))^[second] state → first = second := by
    intro first second ordered bound same
    obtain ⟨gap, rfl⟩ := Nat.exists_eq_add_of_le ordered
    rw [Nat.add_comm, Function.iterate_add_apply] at same
    have divides := dvd_of_iterate_next_eq residue odd same.symm
    have none : gap = 0 := Nat.eq_zero_of_dvd_of_lt divides (by omega)
    rw [none, Nat.add_zero]
  intro first firstMember second secondMember same
  rw [coe_range, Set.mem_Iio] at firstMember secondMember
  rcases Nat.le_total first second with ordered | ordered
  · exact apart first second ordered secondMember same
  · exact (apart second first ordered firstMember same.symm).symm

theorem image_iterate_next (bound : state < 2 ^ width) :
    (range (2 ^ width)).image (fun steps => (next multiplier increment (2 ^ width))^[steps] state) =
      range (2 ^ width) := by
  refine eq_of_subset_of_card_le ?_ ?_
  · intro value member
    obtain ⟨steps, _, rfl⟩ := mem_image.mp member
    exact mem_range.mpr (iterate_next_lt bound steps)
  · rw [card_image_of_injOn (iterate_next_injOn residue odd state)]

theorem visits_next (bound : state < 2 ^ width) (wanted : Nat → Prop) [DecidablePred wanted] :
    visits (next multiplier increment (2 ^ width)) wanted (2 ^ width) state =
      ((range (2 ^ width)).filter wanted).card := by
  rw [visits_eq_card]
  calc ((range (2 ^ width)).filter fun steps =>
        wanted ((next multiplier increment (2 ^ width))^[steps] state)).card
      = (((range (2 ^ width)).filter fun steps =>
          wanted ((next multiplier increment (2 ^ width))^[steps] state)).image fun steps =>
              (next multiplier increment (2 ^ width))^[steps] state).card :=
        (card_image_of_injOn ((iterate_next_injOn residue odd state).mono
          (coe_subset.mpr (filter_subset _ _)))).symm
    _ = (((range (2 ^ width)).image fun steps =>
          (next multiplier increment (2 ^ width))^[steps] state).filter
            wanted).card := by rw [filter_image]
    _ = ((range (2 ^ width)).filter wanted).card := by
        rw [image_iterate_next residue odd bound]

end FullPeriod

end Congruential
