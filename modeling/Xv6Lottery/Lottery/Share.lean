import Xv6Lottery.Lib.Congruential
import Xv6Lottery.Lottery.Round

namespace Xv6Lottery

open Finset ProcTable

/-! The long-run share of a process: rounds of one CPU that all start from
the same table, each drawing from the seed the one before left. -/

def dispatchCount (table : ProcTable) (slot : Slot) : Nat → BitVec 32 → Nat
  | 0, _ => 0
  | rounds + 1, seed =>
    let (winner, seed) := lotteryRound table seed
    (if winner = some slot then 1 else 0) + dispatchCount table slot rounds seed

def Wins (table : ProcTable) (slot : Slot) (value : Nat) : Prop :=
  Selection.select table.weight
    (value % Selection.total table.weight table.runnable) 0 table.runnable = some slot

instance (table : ProcTable) (slot : Slot) : DecidablePred (Wins table slot) :=
  fun _ => inferInstanceAs (Decidable (_ = _))

theorem toNat_nextSeed (seed : BitVec 32) :
    (nextSeed seed).toNat = Congruential.next 1664525 1013904223 (2 ^ 32) seed.toNat := by
  unfold nextSeed Congruential.next
  rw [BitVec.toNat_add, BitVec.toNat_mul, BitVec.toNat_ofNat,
    BitVec.toNat_ofNat, Nat.mul_comm, ← Nat.add_mod]

/-- The generator of random.c comes to every seed before one comes again. -/
theorem seeds_cycle (seed value : BitVec 32) :
    ∃! steps, steps < 2 ^ 32 ∧ nextSeed^[steps] seed = value := by
  have toNat : ∀ steps, (nextSeed^[steps] seed).toNat =
      (Congruential.next 1664525 1013904223 (2 ^ 32))^[steps] seed.toNat :=
    fun steps => Function.Semiconj.iterate_right toNat_nextSeed steps seed
  have residue : 1664525 % 4 = 1 := rfl
  have odd : 1013904223 % 2 = 1 := rfl
  have visited := mem_range.mpr value.isLt
  rw [← Congruential.image_iterate_next residue odd seed.isLt] at visited
  obtain ⟨steps, bound, reached⟩ := mem_image.mp visited
  refine ⟨steps, ⟨mem_range.mp bound, ?_⟩, fun other ⟨small, same⟩ => ?_⟩
  · rw [← BitVec.toNat_inj, toNat, reached]
  · refine Congruential.iterate_next_injOn residue odd seed.toNat
      (mem_coe.mpr (mem_range.mpr small)) (mem_coe.mpr bound) ?_
    dsimp only
    rw [reached, ← same, toNat]

section Bounded

variable {table : ProcTable} (admitted : table.Admitted) (ready : (table slot).state = .runnable)
  (bounded : table.ticketSum ≤ 2 ^ 31 - 1)

include admitted ready

theorem card_wins_bounds (size : Nat) :
    table.weight slot * (size / Selection.total table.weight table.runnable) ≤
      ((range size).filter (Wins table slot)).card ∧ ((range size).filter (Wins table slot)).card ≤
      table.weight slot * (size ⌈/⌉ Selection.total table.weight table.runnable) := by
  have positive := admitted.total_pos ready
  have fiber : (range size).filter (Wins table slot) = (range size).filter fun value =>
        value % Selection.total table.weight table.runnable ∈
          (range (Selection.total table.weight table.runnable)).filter fun draw =>
              Selection.select table.weight draw 0 table.runnable = some slot := by
    ext value
    simp only [mem_filter, mem_range, Nat.mod_lt _ positive, true_and]
    rfl
  have draws : _ = table.weight slot :=
    Selection.card_select table.runnable_nodup (mem_runnable.mpr ready)
  rw [fiber, ← draws]
  exact Selection.card_mod_bounds (fun draw member => mem_range.mp (mem_filter.mp member).1) size

include bounded

theorem dispatchCount_eq_visits (rounds : Nat) (seed : BitVec 32) :
    dispatchCount table slot rounds seed = Congruential.visits
      (Congruential.next 1664525 1013904223 (2 ^ 32)) (Wins table slot) rounds (nextSeed seed).toNat
      := by
  induction rounds generalizing seed with
  | zero => rfl
  | succ rounds induction =>
    rw [dispatchCount, lotteryRound_eq admitted ready bounded,
      Congruential.visits, ← toNat_nextSeed, ← induction]
    rfl

end Bounded

/-- Over one period of the generator each runnable process runs in proportion to
its tickets, up to rounding; each round draws once. -/
theorem dispatchCount_proportional (table : ProcTable) (seed : BitVec 32)
    (admitted : table.Admitted) (bounded : table.ticketSum ≤ 2 ^ 31 - 1) (slot : Slot)
    (ready : (table slot).state = .runnable) :
    (table slot).tickets.toNat * (2 ^ 32 / table.ticketSum.toNat) ≤
      dispatchCount table slot (2 ^ 32) seed ∧ dispatchCount table slot (2 ^ 32) seed ≤
      (table slot).tickets.toNat * (2 ^ 32 ⌈/⌉ table.ticketSum.toNat) ∧ ∀ current,
      (lotteryRound table current).2 = nextSeed current := by
  have total : table.ticketSum.toNat = Selection.total table.weight table.runnable := by
    rw [admitted.ticketSum_eq, Int.toNat_natCast]
  have period := Congruential.visits_next (by decide : 1664525 % 4 = 1)
    (by decide : 1013904223 % 2 = 1) (nextSeed seed).isLt (Wins table slot)
  rw [dispatchCount_eq_visits admitted ready bounded, period, total]
  obtain ⟨lower, upper⟩ := card_wins_bounds admitted ready (2 ^ 32)
  refine ⟨lower, upper, fun current => ?_⟩
  rw [lotteryRound_eq admitted ready bounded]

theorem dispatchCount_initproc :
    10 * (2 ^ 32 / ProcTable.userinit.ticketSum.toNat) ≤
      dispatchCount ProcTable.userinit initproc (2 ^ 32) 1 ∧
      dispatchCount ProcTable.userinit initproc (2 ^ 32) 1 ≤
      10 * (2 ^ 32 ⌈/⌉ ProcTable.userinit.ticketSum.toNat) ∧ ∀ current,
      (lotteryRound ProcTable.userinit current).2 = nextSeed current :=
  dispatchCount_proportional ProcTable.userinit 1 (by decide +kernel)
    (by decide +kernel) initproc (by decide)

end Xv6Lottery
