import Mathlib.Logic.Function.Basic
import Mathlib.Data.UInt
import Mathlib.Tactic.Common

/-! memmove() of string.c and of ulib.c. -/

namespace Xv6Lottery.Move

open Function (update update_self update_of_ne)

abbrev Memory := UInt64 → UInt8

/-- `while(n-- > 0) *d++ = *s++`. -/
def copyUp : UInt64 → UInt64 → Nat → Memory → Memory
  | _, _, 0, memory => memory
  | d, s, n + 1, memory => copyUp (d + 1) (s + 1) n (update memory d (memory s))

/-- `while(n-- > 0) *--d = *--s`. -/
def copyDown : UInt64 → UInt64 → Nat → Memory → Memory
  | _, _, 0, memory => memory
  | d, s, n + 1, memory => copyDown (d - 1) (s - 1) n (update memory (d - 1) (memory (s - 1)))

/-- memmove() of string.c. -/
def Kernel.memmove (dst src : UInt64) (n : UInt32) (memory : Memory) : Memory :=
  if n = 0 then memory
  else if src < dst ∧ src + n.toUInt64 > dst then
    copyDown (dst + n.toUInt64) (src + n.toUInt64) n.toNat memory
  else copyUp dst src n.toNat memory

/-- memmove() of ulib.c. -/
def User.memmove (dst src : UInt64) (n : Int32) (memory : Memory) : Memory :=
  if src > dst then copyUp dst src n.toInt.toNat memory
  else copyDown (dst + n.toInt64.toUInt64) (src + n.toInt64.toUInt64) n.toInt.toNat memory

/-- The bytes of a range are those that another range had before. -/
structure Moved (dst src : UInt64) (n : Nat) (before after : Memory) : Prop where
  inside : ∀ i < n, after (dst + .ofNat i) = before (src + .ofNat i)
  outside : ∀ a, (∀ i < n, a ≠ dst + .ofNat i) → after a = before a

theorem Moved.unique (one : Moved dst src n before first) (two : Moved dst src n before second) :
    first = second := by
  funext a
  by_cases inRange : ∃ i < n, a = dst + .ofNat i
  · obtain ⟨i, small, rfl⟩ := inRange
    rw [one.inside i small, two.inside i small]
  · have apart : ∀ i < n, a ≠ dst + .ofNat i := fun i small same => inRange ⟨i, small, same⟩
    rw [one.outside a apart, two.outside a apart]

theorem add_succ (a : UInt64) (i : Nat) : a + 1 + .ofNat i = a + .ofNat (i + 1) := by
  rw [Nat.add_comm i 1, UInt64.ofNat_add, UInt64.add_assoc]
  rfl

theorem toNat_ofNat (small : i < 2 ^ 64) : (UInt64.ofNat i).toNat = i :=
  UInt64.toNat_ofNat_of_lt' small

theorem add_inj {a : UInt64} (first : i < 2 ^ 64) (second : j < 2 ^ 64)
    (same : a + .ofNat i = a + .ofNat j) : i = j := by
  have equal := congrArg UInt64.toNat ((UInt64.add_right_inj a).mp same)
  rwa [toNat_ofNat first, toNat_ofNat second] at equal

/-- Each byte is read before the loop writes to its address. -/
theorem copyUp_moved {n : Nat} (dst src : UInt64) (memory : Memory) (size : n ≤ 2 ^ 64)
    (ahead : ∀ i j, i < j → j < n → src + .ofNat j ≠ dst + .ofNat i) :
    Moved dst src n memory (copyUp dst src n memory) := by
  induction n generalizing dst src memory with
  | zero => exact ⟨nofun, fun _ _ => rfl⟩
  | succ n induction =>
    have rest := induction (dst + 1) (src + 1) (update memory dst (memory src)) (by omega)
      fun i j less small => by
        rw [add_succ, add_succ]
        exact ahead (i + 1) (j + 1) (by omega) (by omega)
    have first : dst = dst + .ofNat 0 := (UInt64.add_zero dst).symm
    constructor
    · intro i small
      cases i with
      | zero =>
        rw [← first, copyUp, rest.outside, update_self]
        · exact congrArg memory (UInt64.add_zero src).symm
        · intro i small same
          rw [add_succ, first, UInt64.add_assoc, ← UInt64.ofNat_add] at same
          exact absurd (add_inj (by omega) (by omega) same) (by omega)
      | succ i =>
        rw [← add_succ, ← add_succ, copyUp, rest.inside i (by omega), add_succ]
        refine update_of_ne ?_ ..
        rw [first]
        exact ahead 0 (i + 1) (by omega) small
    · intro a apart
      rw [copyUp, rest.outside]
      · refine update_of_ne ?_ ..
        rw [first]
        exact apart 0 (by omega)
      · intro i small
        rw [add_succ]
        exact apart (i + 1) (by omega)

theorem copyDown_moved {n : Nat} (dst src : UInt64) (memory : Memory) (size : n ≤ 2 ^ 64)
    (behind : ∀ i j, j < i → i < n → src + .ofNat j ≠ dst + .ofNat i) :
    Moved dst src n memory (copyDown (dst + .ofNat n) (src + .ofNat n) n memory) := by
  induction n generalizing memory with
  | zero => exact ⟨nofun, fun _ _ => rfl⟩
  | succ n induction =>
    have before : ∀ a : UInt64, a + .ofNat (n + 1) - 1 = a + .ofNat n := by
      intro a
      rw [UInt64.ofNat_add, ← UInt64.add_assoc]
      exact UInt64.add_sub_cancel ..
    rw [copyDown, before, before]
    have rest := induction (update memory (dst + .ofNat n) (memory (src + .ofNat n))) (by omega)
      fun i j less small => behind i j less (by omega)
    have last : ∀ i < n, dst + .ofNat n ≠ dst + .ofNat i := fun i small same =>
      absurd (add_inj (by omega) (by omega) same) (by omega)
    constructor
    · intro i small
      rcases Nat.lt_succ_iff_lt_or_eq.mp small with less | rfl
      · rw [rest.inside i less]
        exact update_of_ne (behind n i less (by omega)) ..
      · rw [rest.outside _ last, update_self]
    · intro a apart
      rw [rest.outside a fun i small => apart i (by omega)]
      exact update_of_ne (apart n (by omega)) ..

theorem toNat_add {a : UInt64} (fits : a.toNat + n ≤ 2 ^ 64) (small : i < n) :
    (a + .ofNat i).toNat = a.toNat + i := by
  rw [UInt64.toNat_add, toNat_ofNat (by omega)]
  exact Nat.mod_eq_of_lt (by omega)

section Both

variable {dst src : UInt64} {n : Nat} (small : n < 2 ^ 31) (target : dst.toNat + n ≤ 2 ^ 64)
  (source : src.toNat + n ≤ 2 ^ 64)

include target source

theorem meet (first : i < n) (second : j < n) (same : src + .ofNat j = dst + .ofNat i) :
    src.toNat + j = dst.toNat + i := by
  rw [← toNat_add source second, ← toNat_add target first, same]

include small

theorem kernel_moved (memory : Memory) :
    Moved dst src n memory (Kernel.memmove dst src (.ofNat n) memory) := by
  have count : (UInt32.ofNat n).toNat = n := UInt32.toNat_ofNat_of_lt' (show n < 2 ^ 32 by omega)
  have wide : (UInt32.ofNat n).toUInt64 = .ofNat n := by
    rw [← UInt64.toNat_inj, UInt32.toNat_toUInt64, count, toNat_ofNat (by omega)]
  unfold Kernel.memmove
  rw [count, wide]
  split
  next none =>
    rw [← UInt32.toNat_inj, count] at none
    subst none
    exact ⟨nofun, fun _ _ => rfl⟩
  split
  next overlap =>
    have less := UInt64.lt_iff_toNat_lt.mp overlap.1
    refine copyDown_moved dst src memory (by omega) fun i j behind inside same => ?_
    have := meet target source inside (by omega) same
    omega
  next apart =>
    refine copyUp_moved dst src memory (by omega) fun i j ahead inside same => apart ?_
    have equal := meet target source (by omega) inside same
    -- The source ends below the target's end, so that `s + n` does not wrap.
    have finish : (src + .ofNat n).toNat = src.toNat + n := by
      rw [UInt64.toNat_add, toNat_ofNat (by omega)]
      exact Nat.mod_eq_of_lt (by omega)
    exact ⟨UInt64.lt_iff_toNat_lt.mpr (by omega), UInt64.lt_iff_toNat_lt.mpr (by omega)⟩

theorem user_moved (memory : Memory) :
    Moved dst src n memory (User.memmove dst src (.ofNat n) memory) := by
  have value : (Int32.ofNat n).toInt = n := Int32.toInt_ofNat_of_lt small
  have wide : (Int32.ofNat n).toInt64.toUInt64 = .ofNat n := by
    have same : (Int32.ofNat n).toInt64 = Int64.ofNat n := by
      rw [← Int64.toInt_inj, Int32.toInt_toInt64, value, Int64.toInt_ofNat_of_lt (by omega)]
    rw [same]
    rfl
  unfold User.memmove
  rw [value, wide, Int.toNat_natCast]
  split
  next above =>
    have less := UInt64.lt_iff_toNat_lt.mp above
    refine copyUp_moved dst src memory (by omega) fun i j ahead inside same => ?_
    have := meet target source (by omega) inside same
    omega
  next below =>
    have least := UInt64.le_iff_toNat_le.mp (UInt64.not_lt.mp below)
    refine copyDown_moved dst src memory (by omega) fun i j behind inside same => ?_
    have := meet target source inside (by omega) same
    omega

end Both

/-- The two functions move the bytes however the ranges overlap, and agree. -/
theorem memmove_moves (dst src : UInt64) (n : Nat) (memory : Memory) (small : n < 2 ^ 31)
    (target : dst.toNat + n ≤ 2 ^ 64) (source : src.toNat + n ≤ 2 ^ 64) :
    Moved dst src n memory (Kernel.memmove dst src (.ofNat n) memory) ∧
      Moved dst src n memory (User.memmove dst src (.ofNat n) memory) ∧
      Kernel.memmove dst src (.ofNat n) memory = User.memmove dst src (.ofNat n) memory :=
  have kernel := kernel_moved small target source memory
  have user := user_moved small target source memory
  ⟨kernel, user, kernel.unique user⟩

theorem memmove_moves_overlap :
    Moved 1 0 3 UInt64.toUInt8 (Kernel.memmove 1 0 3 UInt64.toUInt8) ∧
      (List.map (Kernel.memmove 1 0 3 UInt64.toUInt8) [0, 1, 2, 3, 4]) = [0, 0, 1, 2, 4] :=
  ⟨(memmove_moves 1 0 3 UInt64.toUInt8 (by decide) (by decide) (by decide)).1, by decide⟩

end Xv6Lottery.Move
