import Xv6Lottery.Proc.Machine

namespace Xv6Lottery

open Function

/-! The scheduler of the machine, left alone for a round, does what
`lotteryRound` computes. -/

namespace Machine

open Transition

variable {Cpu : Type} [DecidableEq Cpu] {machine : Machine Cpu} {cpu : Cpu}

theorem advance_dispatch (point : SchedPoint) (stored : BitVec 32) :
    (machine.advance cpu point stored).dispatch cpu winner resume =
      { machine with seed := stored }.dispatch cpu winner resume := by
  unfold advance dispatch
  simp only [update_idem]

theorem reach_advance (seed : BitVec 32)
    (moved : SchedStep machine.procs machine.schedulerMode seed before event tested stored after)
    (free : ∀ slot, machine.lock (.proc slot) = none)
    (rest : Reachable Step (machine.advance cpu after stored) goal) :
    Reachable Step (machine.advance cpu before seed) goal := by
  obtain ⟨labels, run⟩ := rest
  have here : (machine.advance cpu before seed).sched cpu = before :=
    update_self ..
  have taken : Step (machine.advance cpu before seed) (cpu, event)
      (machine.advance cpu after stored) := by
    rw [← advance_advance before after seed stored]
    rw [← here] at moved
    exact .schedule moved fun slot _ => free slot
  exact ⟨_, (Run.single taken).trans run⟩

section Alone

variable (free : ∀ slot, machine.lock (.proc slot) = none)

include free

theorem reach_count (seed : BitVec 32) (remaining : List Slot) (total : BitVec 32)
    (rest : Reachable Step (machine.advance cpu (.count []
      (countTickets machine.procs total remaining)) seed) goal) :
    Reachable Step (machine.advance cpu (.count remaining total) seed) goal := by
  induction remaining generalizing total with
  | nil => exact rest
  | cons slot remaining induction =>
    refine reach_advance seed .count free (induction _ ?_)
    rw [countTickets] at rest
    split at rest
    · next ready =>
        rw [if_pos ready]
        exact rest
    · next idle =>
        rw [if_neg idle]
        exact rest

theorem reach_pick (seed winning : BitVec 32) (remaining : List Slot) (current : BitVec 32)
    (picked : pickWinner machine.procs winning current remaining = some winner) : Reachable Step
      (machine.advance cpu (.pick remaining winning current) seed)
      ({ machine with seed := seed }.dispatch cpu winner .lottery) := by
  induction remaining generalizing current with
  | nil => cases picked
  | cons slot remaining induction =>
    rw [pickWinner] at picked
    split at picked
    · next ready =>
        dsimp only at picked
        split at picked
        · next wins =>
            obtain rfl := Option.some.inj picked
            have here : (machine.advance cpu (.pick (slot :: remaining) winning current) seed).sched
                cpu = .pick (slot :: remaining) winning current :=
              update_self ..
            rw [← advance_dispatch (.pick (slot :: remaining) winning current)]
            refine ⟨_, Run.single (.dispatch ?_ (free slot))⟩
            rw [here]
            exact .lottery ready wins
        · next loses =>
            exact reach_advance seed (.lose ready loses) free (induction _ picked)
    · next idle =>
        exact reach_advance seed (.pass idle) free (induction _ picked)

end Alone

end Machine

end Xv6Lottery
