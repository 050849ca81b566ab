import Xv6Lottery.Lib.Selection
import Xv6Lottery.Proc.Table

namespace Xv6Lottery

/-! random.c. Both `unsigned int` and `int` are 32-bit words; `%` divides
unsigned, since `max` is converted to the type of `seed`. -/

def nextSeed (seed : BitVec 32) : BitVec 32 :=
  seed * 1664525#32 + 1013904223#32

def random (seed max : BitVec 32) : BitVec 32 × BitVec 32 :=
  (nextSeed seed % max, nextSeed seed)

/-! One lottery round of scheduler() over a table that does not change during
the round: two passes over the slots in table order. -/

def countTickets (table : ProcTable) (total : BitVec 32) : List Slot → BitVec 32
  | [] => total
  | slot :: rest =>
    if (table slot).state = .runnable then
      countTickets table (total + (table slot).tickets) rest
    else countTickets table total rest

def pickWinner (table : ProcTable) (winning current : BitVec 32) : List Slot → Option Slot
  | [] => none
  | slot :: rest =>
    if (table slot).state = .runnable then
      let current := current + (table slot).tickets
      -- `current_ticket_sum > winning_ticket` compares signed ints.
      if winning.slt current then some slot
      else pickWinner table winning current rest
    else pickWinner table winning current rest

def totalTickets (table : ProcTable) : BitVec 32 :=
  countTickets table 0 slots

/-- The process the round switches to, and the seed it leaves. -/
def lotteryRound (table : ProcTable) (seed : BitVec 32) : Option Slot × BitVec 32 :=
  if totalTickets table = 0 then (none, seed)
  else
    let (winning, seed) := random seed (totalTickets table)
    (pickWinner table winning 0 slots, seed)

/-! The mathematical reading of the two passes. -/

namespace ProcTable

def runnable (table : ProcTable) : List Slot :=
  slots.filter fun slot => (table slot).state = .runnable

def ticketSum (table : ProcTable) : Int :=
  (table.runnable.map fun slot => (table slot).tickets.toInt).sum

/-- Every process that may run holds at least one ticket, as allocproc and
sys_settickets leave it. -/
def Admitted (table : ProcTable) : Prop :=
  ∀ slot, (table slot).state = .runnable → 1 ≤ (table slot).tickets.toInt

def weight (table : ProcTable) (slot : Slot) : Nat :=
  (table slot).tickets.toNat

instance (table : ProcTable) : Decidable table.Admitted :=
  inferInstanceAs (Decidable (∀ _, _ → _))

theorem mem_runnable {table : ProcTable} :
    slot ∈ table.runnable ↔ (table slot).state = .runnable := by
  simp [runnable, slots]

theorem runnable_nodup (table : ProcTable) : table.runnable.Nodup :=
  (List.nodup_finRange nproc).filter _

theorem Admitted.toInt_eq {table : ProcTable} (admitted : table.Admitted)
    (ready : (table slot).state = .runnable) : (table slot).tickets.toInt = table.weight slot := by
  have positive := admitted slot ready
  unfold weight
  rw [BitVec.toInt_eq_toNat_cond] at positive ⊢
  split <;> omega

theorem Admitted.ticketSum_eq {table : ProcTable} (admitted : table.Admitted) :
    table.ticketSum = Selection.total table.weight table.runnable := by
  have each : ∀ slot ∈ table.runnable, (table slot).tickets.toInt = (table.weight slot : Int) := by
    intro slot member
    exact admitted.toInt_eq (mem_runnable.mp member)
  unfold ticketSum Selection.total
  rw [List.map_congr_left each, Nat.cast_list_sum, List.map_map]
  rfl

theorem Admitted.total_pos {table : ProcTable} (admitted : table.Admitted)
    (ready : (table slot).state = .runnable) : 0 < Selection.total table.weight table.runnable := by
  have positive := admitted slot ready
  rw [admitted.toInt_eq ready] at positive
  have member := Selection.le_total table.weight (mem_runnable.mpr ready)
  omega

end ProcTable

open ProcTable

/-! Without overflow the passes compute the running sums of the runnable
slots. -/

theorem countTickets_eq (table : ProcTable) (total : BitVec 32) (remaining : List Slot) :
    countTickets table total remaining = total + BitVec.ofNat 32
      (Selection.total table.weight (remaining.filter fun slot => (table slot).state = .runnable))
      := by
  induction remaining generalizing total with
  | nil => simp [countTickets]
  | cons slot rest induction =>
    unfold countTickets
    split
    · next ready =>
        rw [induction, List.filter_cons_of_pos (by simpa using ready),
          Selection.total_cons, BitVec.ofNat_add, BitVec.add_assoc]
        simp [weight]
    · next idle =>
        rw [induction, List.filter_cons_of_neg (by simpa using idle)]

theorem totalTickets_eq (table : ProcTable) :
    totalTickets table = BitVec.ofNat 32 (Selection.total table.weight table.runnable) := by
  rw [totalTickets, countTickets_eq]
  simp [ProcTable.runnable]

theorem pickWinner_eq (draw : winning.toNat < 2 ^ 31) (fits : current.toNat + Selection.total
      table.weight (remaining.filter fun slot => (table slot).state = .runnable) < 2 ^ 31) :
    pickWinner table winning current remaining =
      Selection.select table.weight winning.toNat current.toNat
      (remaining.filter fun slot => (table slot).state = .runnable) := by
  induction remaining generalizing current with
  | nil => rfl
  | cons slot rest induction =>
    unfold pickWinner
    split
    · next ready =>
        rw [List.filter_cons_of_pos (by simpa using ready)] at fits ⊢
        rw [Selection.total_cons] at fits
        have sum : (current + (table slot).tickets).toNat = current.toNat + table.weight slot := by
          unfold weight at fits ⊢
          rw [BitVec.toNat_add, Nat.mod_eq_of_lt (by omega)]
        have compare : winning.slt (current + (table slot).tickets) =
            decide (winning.toNat < current.toNat + table.weight slot) := by
          rw [BitVec.slt_eq_decide, BitVec.toInt_eq_toNat_of_lt (by omega),
            BitVec.toInt_eq_toNat_of_lt (by omega), sum]
          simp only [Int.ofNat_lt]
        simp only [compare, decide_eq_true_eq, Selection.select]
        rw [induction (by omega), sum]
    · next idle =>
        rw [List.filter_cons_of_neg (by simpa using idle)] at fits ⊢
        exact induction fits

section Bounded

variable {table : ProcTable} (admitted : table.Admitted) (ready : (table slot).state = .runnable)
  (bounded : table.ticketSum ≤ 2 ^ 31 - 1)

include admitted bounded

theorem toNat_totalTickets :
    (totalTickets table).toNat = Selection.total table.weight table.runnable := by
  rw [admitted.ticketSum_eq] at bounded
  rw [totalTickets_eq, BitVec.toNat_ofNat, Nat.mod_eq_of_lt (by omega)]

theorem toInt_totalTickets : (totalTickets table).toInt = table.ticketSum := by
  have unsigned := toNat_totalTickets admitted bounded
  rw [admitted.ticketSum_eq] at bounded ⊢
  rw [BitVec.toInt_eq_toNat_of_lt (by omega), unsigned]

theorem pickWinner_eq_select {winning : BitVec 32}
    (draw : winning.toNat < Selection.total table.weight table.runnable) :
    pickWinner table winning 0 slots = Selection.select table.weight winning.toNat 0 table.runnable
      := by
  rw [admitted.ticketSum_eq] at bounded
  have fits : (0 : BitVec 32).toNat + Selection.total table.weight table.runnable < 2 ^ 31 := by
    change 0 + _ < _
    omega
  exact pickWinner_eq (by omega) fits

include ready

/-- A round draws once and runs the runnable slot the draw falls on. -/
theorem lotteryRound_eq (seed : BitVec 32) :
    lotteryRound table seed = (Selection.select table.weight
        ((nextSeed seed).toNat % Selection.total table.weight table.runnable) 0 table.runnable,
        nextSeed seed) := by
  have unsigned := toNat_totalTickets admitted bounded
  have positive := admitted.total_pos ready
  have nonzero : totalTickets table ≠ 0 := by
    intro zero
    rw [zero] at unsigned
    exact absurd unsigned (by simp; omega)
  have drawn : (nextSeed seed % totalTickets table).toNat = (nextSeed seed).toNat %
        Selection.total table.weight table.runnable := by
    rw [BitVec.toNat_umod, unsigned]
  have below := Nat.mod_lt (nextSeed seed).toNat positive
  unfold lotteryRound random
  rw [if_neg nonzero]
  dsimp only
  rw [pickWinner_eq_select admitted bounded (by rwa [drawn]), drawn]

end Bounded

/-! What a winning ticket picks, without the draw. -/

section Tickets

variable {table : ProcTable} (admitted : table.Admitted) (bounded : table.ticketSum ≤ 2 ^ 31 - 1)

include admitted bounded

theorem pickWinner_total {winning : BitVec 32}
    (draw : winning.toNat < Selection.total table.weight table.runnable) :
    ∃ winner, pickWinner table winning 0 slots = some winner ∧ (table winner).state =
      .runnable := by
  obtain ⟨winner, selected⟩ := Option.isSome_iff_exists.mp
    (Selection.select_isSome (by rwa [Nat.zero_add]) (Nat.zero_le _))
  refine ⟨winner, ?_, mem_runnable.mp (Selection.select_mem selected)⟩
  rw [pickWinner_eq_select admitted bounded draw, selected]

theorem card_pickWinner (ready : (table slot).state = .runnable) :
    ((Finset.range (Selection.total table.weight table.runnable)).filter fun winning : ℕ =>
        pickWinner table (BitVec.ofNat 32 winning) 0 slots = some slot).card =
      table.weight slot := by
  refine Eq.trans ?_ (Selection.card_select table.runnable_nodup (mem_runnable.mpr ready))
  refine congrArg Finset.card (Finset.filter_congr fun winning member => ?_)
  have draw := Finset.mem_range.mp member
  have small := bounded
  rw [admitted.ticketSum_eq] at small
  have same : (BitVec.ofNat 32 winning).toNat = winning := by
    rw [BitVec.toNat_ofNat, Nat.mod_eq_of_lt (by omega)]
  rw [pickWinner_eq_select admitted bounded (by rwa [same]), same]

end Tickets

/-- The odds of one undisturbed round: as many tickets pick a process as it
holds, and random() draws a ticket below the total. -/
theorem lottery_odds_exact (table : ProcTable) (admitted : table.Admitted)
    (bounded : table.ticketSum ≤ 2 ^ 31 - 1) :
    (∀ winning : BitVec 32, 0 ≤ winning.toInt → winning.toInt < table.ticketSum → ∃! winner,
        pickWinner table winning 0 slots = some winner ∧ (table winner).state = .runnable) ∧
      (∀ slot, (table slot).state = .runnable → (((Finset.range table.ticketSum.toNat).filter fun
        winning : ℕ => pickWinner table (BitVec.ofNat 32 winning) 0 slots = some slot).card : Int) =
        (table slot).tickets.toInt) ∧ ∀ seed, 0 < table.ticketSum → (totalTickets table).toInt =
      table.ticketSum ∧ 0 ≤ (random seed (totalTickets table)).1.toInt ∧
      (random seed (totalTickets table)).1.toInt < table.ticketSum := by
  refine ⟨?_, ?_, ?_⟩
  · intro winning nonneg below
    rw [admitted.ticketSum_eq] at below
    rw [BitVec.toInt_eq_toNat_cond] at nonneg below
    have draw : winning.toNat < Selection.total table.weight table.runnable := by
      split at below <;> omega
    obtain ⟨winner, picked, ready⟩ := pickWinner_total admitted bounded draw
    refine ⟨winner, ⟨picked, ready⟩, fun other ⟨pickedOther, _⟩ => ?_⟩
    exact Option.some.inj (pickedOther.symm.trans picked)
  · intro slot ready
    rw [admitted.toInt_eq ready, admitted.ticketSum_eq, Int.toNat_natCast,
      card_pickWinner admitted bounded ready]
  · intro seed positive
    have unsigned := toNat_totalTickets admitted bounded
    refine ⟨toInt_totalTickets admitted bounded, ?_⟩
    rw [admitted.ticketSum_eq] at bounded positive ⊢
    have drawn : (random seed (totalTickets table)).1.toNat = (nextSeed seed).toNat %
          Selection.total table.weight table.runnable := by
      rw [random, BitVec.toNat_umod, unsigned]
    have below := Nat.mod_lt (nextSeed seed).toNat (Int.natCast_pos.mp positive)
    rw [BitVec.toInt_eq_toNat_of_lt (by omega), drawn]
    omega

/-- An undisturbed round dispatches a runnable process precisely when the
tickets of the runnable processes add up to an int. -/
theorem lotteryRound_dispatches_iff (table : ProcTable) (seed : BitVec 32)
    (admitted : table.Admitted) (someRunnable : ∃ slot, (table slot).state = .runnable) :
    (∃ winner, (lotteryRound table seed).1 = some winner ∧ (table winner).state = .runnable ∧
        (totalTickets table).toInt = table.ticketSum) ↔ table.ticketSum ≤ 2 ^ 31 - 1 := by
  obtain ⟨slot, ready⟩ := someRunnable
  constructor
  · rintro ⟨_, _, _, exact_sum⟩
    have bound := (totalTickets table).toInt_lt
    omega
  · intro bounded
    have below := Nat.mod_lt (nextSeed seed).toNat (admitted.total_pos ready)
    obtain ⟨winner, selected⟩ := Option.isSome_iff_exists.mp
      (Selection.select_isSome (by rwa [Nat.zero_add]) (Nat.zero_le _))
    refine ⟨winner, ?_, ?_, toInt_totalTickets admitted bounded⟩
    · rw [lotteryRound_eq admitted ready bounded, selected]
    · exact mem_runnable.mp (Selection.select_mem selected)

theorem lotteryRound_dispatches_initproc :
    ∃ winner, (lotteryRound ProcTable.userinit 1).1 = some winner ∧
      (ProcTable.userinit winner).state = .runnable ∧ (totalTickets ProcTable.userinit).toInt =
      ProcTable.userinit.ticketSum :=
  (lotteryRound_dispatches_iff ProcTable.userinit 1 (by decide +kernel)
    ⟨initproc, by decide⟩).mpr (by decide +kernel)

def ProcTable.gapped : ProcTable := fun slot =>
  if slot.val < 3 then
    { Proc.blank with
      state := if slot.val = 1 then .sleeping else .runnable
      pid := BitVec.ofNat 32 (slot.val + 1)
      tickets := BitVec.ofNat 32 (slot.val + 1) }
  else Proc.blank

theorem lottery_odds_gapped : (((Finset.range 4).filter fun winning : ℕ =>
      pickWinner ProcTable.gapped (BitVec.ofNat 32 winning) 0 slots =
        some ⟨2, by decide⟩).card : Int) = 3 :=
  (lottery_odds_exact ProcTable.gapped (by decide +kernel)
    (by decide +kernel)).2.1 ⟨2, by decide⟩ (by decide)

def ProcTable.overcommitted : ProcTable := fun slot =>
  if slot.val < 4 then
    { Proc.blank with
      state := .runnable
      pid := BitVec.ofNat 32 (slot.val + 1)
      tickets := 2 ^ 30 }
  else Proc.blank

theorem overcommitted_stalls :
    ProcTable.overcommitted.Admitted ∧ (ProcTable.overcommitted initproc).state = .runnable ∧
      (∀ seed, lotteryRound ProcTable.overcommitted seed = (none, seed)) ∧
      (totalTickets ProcTable.overcommitted).toInt ≠ ProcTable.overcommitted.ticketSum := by
  have wrapped : totalTickets ProcTable.overcommitted = 0 := by
    decide +kernel
  refine ⟨by decide +kernel, by decide, ?_, by decide +kernel⟩
  intro seed
  rw [lotteryRound, if_pos wrapped]

end Xv6Lottery
