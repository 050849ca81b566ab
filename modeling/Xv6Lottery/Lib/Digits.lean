import Mathlib.Data.Nat.ModEq
import Mathlib.Tactic.Ring

/-! Numbers as rows of digits: one digit, and the number with another digit in
its place. -/

namespace Digits

variable {base x i j d count : Nat}

def digit (base x i : Nat) : Nat := x / base ^ i % base

def put (base x i d : Nat) : Nat :=
  x / base ^ (i + 1) * base ^ (i + 1) + d * base ^ i + x % base ^ i

section Put

variable (small : d < base)

include small

theorem put_div : put base x i d / base ^ i = x / base ^ (i + 1) * base + d := by
  have power : 0 < base ^ i := Nat.pow_pos (by omega)
  have split : put base x i d = x % base ^ i + base ^ i * (x / base ^ (i + 1) * base + d) := by
    unfold put
    ring
  rw [split, Nat.add_mul_div_left _ _ power, Nat.div_eq_of_lt (Nat.mod_lt _ power), Nat.zero_add]

theorem put_div_succ : put base x i d / base ^ (i + 1) = x / base ^ (i + 1) := by
  rw [Nat.pow_succ, ← Nat.div_div_eq_div_mul, put_div small,
    Nat.mul_comm _ base, Nat.mul_add_div (by omega),
    Nat.div_eq_of_lt small, Nat.add_zero, ← Nat.pow_succ]

omit small in
theorem put_mod : put base x i d % base ^ i = x % base ^ i := by
  have split : put base x i d = x % base ^ i + base ^ i * (x / base ^ (i + 1) * base + d) := by
    unfold put
    ring
  rw [split, Nat.add_mul_mod_self_left, Nat.mod_mod]

theorem digit_put_self : digit base (put base x i d) i = d := by
  rw [digit, put_div small, Nat.mul_comm, Nat.mul_add_mod, Nat.mod_eq_of_lt small]

theorem digit_put_of_ne (apart : j ≠ i) : digit base (put base x i d) j = digit base x j := by
  unfold digit
  rcases Nat.lt_or_gt_of_ne apart with less | more
  · -- the lower digits are those of the rest
    have low : ∀ y, y / base ^ j % base = y % base ^ i % base ^ (j + 1) / base ^ j := by
      intro y
      rw [Nat.mod_mod_of_dvd _ (Nat.pow_dvd_pow base less), Nat.pow_succ,
        Nat.mod_mul_right_div_self]
    rw [low, put_mod, ← low]
  · obtain ⟨above, rfl⟩ := Nat.exists_eq_add_of_lt more
    have high : ∀ y, y / base ^ (i + above + 1) = y / base ^ (i + 1) / base ^ above := by
      intro y
      rw [Nat.div_div_eq_div_mul, ← Nat.pow_add, Nat.add_right_comm]
    rw [high, put_div_succ small, ← high]

theorem put_lt (bound : x < base ^ count) (inside : i < count) : put base x i d < base ^ count := by
  obtain ⟨above, rfl⟩ := Nat.exists_eq_add_of_lt inside
  have power : 0 < base ^ (i + 1) := Nat.pow_pos (by omega)
  have split : base ^ (i + above + 1) = base ^ above * base ^ (i + 1) := by
    rw [← Nat.pow_add]
    congr 1
    omega
  rw [split, ← Nat.div_lt_iff_lt_mul power] at bound ⊢
  rw [put_div_succ small]
  exact bound

end Put

end Digits
