import Xv6Lottery.Proc.Coherent

namespace Xv6Lottery

open Function

/-! Which CPU runs a process, and what a lottery round dispatches. -/

namespace LifeEvent

theorem tickets_apply (event : LifeEvent) (table : ProcTable) (slot : Slot) :
    (event.apply table slot).tickets = (table slot).tickets ∨
      (∃ count, event = .settickets slot count ∧ (event.apply table slot).tickets = count) ∨
      (∃ self pid, event = .alloc self slot pid ∧ (event.apply table slot).tickets = 10) := by
  by_cases targets : event.target = some slot
  · rw [apply_target table targets]
    cases event with
    | settickets self count =>
      cases targets
      exact .inr (.inl ⟨count, rfl, rfl⟩)
    | alloc self child pid =>
      cases targets
      exact .inr (.inr ⟨self, pid, rfl, rfl⟩)
    | _ => exact .inl rfl
  · exact .inl (congrArg Proc.tickets (apply_other table targets))

def Ticketed (table : ProcTable) : Prop :=
  ∀ slot, (table slot).state ≠ .unused → 1 ≤ (table slot).tickets.toInt

theorem ticketed_apply {event : LifeEvent} (ticketed : Ticketed table)
    (legal : event.Legal table) : Ticketed (event.apply table) := by
  intro slot inUse
  rcases event.tickets_apply table slot with
    same | ⟨count, rfl, set⟩ | ⟨self, pid, rfl, set⟩
  · rw [same]
    by_cases unused : (table slot).state = .unused
    · rcases edge_apply legal slot with kept | edge
      · exact absurd (kept.trans unused) inUse
      · rw [unused] at edge
        generalize (event.apply table slot).state = after at edge
        cases edge with
        | alloc =>
          rw [apply_target table rfl] at same
          rw [← same]
          exact (by decide : 1 ≤ (10 : BitVec 32).toInt)
    · exact ticketed slot unused
  · rw [set]
    exact legal.2
  · rw [set]
    decide

theorem zombie_apply {event : LifeEvent} (legal : event.Legal table)
    (zombie : (table slot).state = .zombie) :
    (event.apply table slot).state = .zombie ∨ (event.apply table slot).state = .unused := by
  rcases edge_apply legal slot with same | edge
  · exact .inl (same.trans zombie)
  · rw [zombie] at edge
    generalize (event.apply table slot).state = after at edge
    cases edge
    exact .inr rfl

end LifeEvent

/-- The points of a lottery round before its dispatch. -/
def SchedPoint.Undecided : SchedPoint → Prop
  | .count _ _ | .drawn _ _ | .pick _ _ _ => True
  | _ => False

theorem SchedStep.undecided (taken : SchedStep table mode seed before event tested stored after)
    (undecided : after.Undecided) : event = .lotteryRound ∨ event = .quiet ∧ before.Undecided := by
  cases taken with
  | lottery => exact .inl rfl
  | count | draw | store | pass | lose => exact .inr ⟨rfl, trivial⟩
  | _ => exact undecided.elim

namespace Machine

variable {Cpu : Type} {machine next : Machine Cpu}

theorem boot_ticketed : LifeEvent.Ticketed (boot : Machine Cpu).procs := by
  intro slot
  unfold boot ProcTable.userinit
  dsimp only
  split
  · intro _
    decide
  · intro inUse
    exact absurd rfl inUse

theorem Coherent.running_iff (coherent : machine.Coherent)
    (free : machine.lock (.proc slot) = none) :
    ((machine.procs slot).state = .running ↔ ∃! cpu, machine.proc cpu = some slot) ∧
      ((machine.procs slot).state ≠ .running → ∀ cpu, machine.proc cpu ≠ some slot) := by
  have assigned : ∀ {cpu}, machine.proc cpu = some slot →
      (machine.procs slot).state = .running := by
    intro cpu runs
    rw [coherent.proc_eq] at runs
    exact (coherent.executes_of_free free runs).2
  refine ⟨⟨?_, ?_⟩, ?_⟩
  · intro running
    by_cases executes : machine.Executes slot
    · obtain ⟨cpu, resume, runs⟩ := executes
      have here : (machine.sched cpu).proc = some slot := by
        rw [runs]
        rfl
      refine ⟨cpu, (coherent.proc_eq cpu).trans here, ?_⟩
      intro other elsewhere
      rw [coherent.proc_eq] at elsewhere
      exact coherent.single elsewhere here
    · have suspended := coherent.suspended executes
      unfold Thread.Suspended at suspended
      rw [running] at suspended
      exact suspended.elim
  · rintro ⟨cpu, runs, _⟩
    exact assigned runs
  · intro idle cpu runs
    exact idle (assigned runs)

variable [DecidableEq Cpu]

theorem run_ticketed (run : Transition.Run (@Step Cpu _) boot labels machine) :
    LifeEvent.Ticketed machine.procs := by
  refine run.history (fun _ machine => LifeEvent.Ticketed machine.procs) boot_ticketed ?_
  intro past middle label after run ticketed taken
  obtain ⟨legal, procs⟩ := taken.legal (run_coherent run)
  rw [procs]
  exact LifeEvent.ticketed_apply ticketed legal

/-! Lottery dispatches since the CPU last began a lottery round. -/

def countDispatch (cpu : Cpu) (count : Nat) (label : Cpu × LifeEvent) : Nat :=
  if label.1 = cpu then
    match label.2 with
    | .lotteryRound => 0
    | .dispatch _ true => count + 1
    | _ => count
  else count

def roundDispatches (cpu : Cpu) (labels : List (Cpu × LifeEvent)) : Nat :=
  labels.foldl (countDispatch cpu) 0

structure AtMostOne (cpu : Cpu) (labels : List (Cpu × LifeEvent))
    (machine : Machine Cpu) : Prop where
  atMostOne : roundDispatches cpu labels ≤ 1
  undecided : (machine.sched cpu).Undecided → roundDispatches cpu labels = 0

theorem roundDispatches_append (cpu : Cpu) (labels : List (Cpu × LifeEvent))
    (label : Cpu × LifeEvent) :
    roundDispatches cpu (labels ++ [label]) = countDispatch cpu (roundDispatches cpu labels) label
      := by
  simp [roundDispatches]

theorem countDispatch_other {label : Cpu × LifeEvent} (differs : label.1 ≠ cpu) (count : Nat) :
    countDispatch cpu count label = count :=
  if_neg differs

theorem countDispatch_self (cpu : Cpu) (count : Nat) (event : LifeEvent)
    (notRound : event ≠ .lotteryRound) (notDispatch : ∀ slot, event ≠ .dispatch slot true) :
    countDispatch cpu count (cpu, event) = count := by
  unfold countDispatch
  rw [if_pos rfl]
  split
  · next same => exact absurd same notRound
  · next slot same => exact absurd same (notDispatch slot)
  · rfl

theorem Step.sched_other (taken : Step machine (cpu, event) next)
    (differs : other ≠ cpu) : next.sched other = machine.sched other := by
  cases taken with
  | schedule | dispatch | finish => exact update_of_ne differs _ _
  | thread => exact perform_sched_other differs
  | wakeup => rfl

theorem AtMostOne.quiet (once : AtMostOne cpu labels machine)
    (same : countDispatch cpu (roundDispatches cpu labels) label = roundDispatches cpu labels)
    (sched : (next.sched cpu).Undecided → (machine.sched cpu).Undecided) :
    AtMostOne cpu (labels ++ [label]) next where
  atMostOne := by
    rw [roundDispatches_append, same]
    exact once.atMostOne
  undecided := by
    rw [roundDispatches_append, same]
    exact once.undecided ∘ sched

theorem AtMostOne.dispatched (once : AtMostOne cpu labels machine)
    (chosen : Chooses machine.procs (machine.sched cpu) self resume) :
    AtMostOne cpu (labels ++ [(cpu, .dispatch self resume.isLottery)])
      (machine.dispatch cpu self resume) := by
  have decided : ¬((machine.dispatch cpu self resume).sched cpu).Undecided := by
    unfold dispatch
    dsimp only
    rw [update_self]
    exact id
  cases resume with
  | roundRobin remaining =>
    exact once.quiet (countDispatch_self cpu _ _ nofun nofun)
      fun undecided => absurd undecided decided
  | lottery =>
    have first : roundDispatches cpu labels = 0 := by
      refine once.undecided ?_
      generalize machine.sched cpu = point at chosen
      cases chosen
      trivial
    have counted : roundDispatches cpu
        (labels ++ [(cpu, .dispatch self Resume.lottery.isLottery)]) = 1 := by
      rw [roundDispatches_append, first]
      exact if_pos rfl
    exact ⟨counted.le, fun undecided => absurd undecided decided⟩

theorem AtMostOne.scheduled (once : AtMostOne cpu labels machine)
    (moved : SchedStep machine.procs machine.schedulerMode machine.seed (machine.sched cpu) event
      tested stored point) :
    AtMostOne cpu (labels ++ [(cpu, event)]) (machine.advance cpu point stored) := by
  have here : (machine.advance cpu point stored).sched cpu = point :=
    update_self ..
  rcases moved.event_eq with rfl | rfl
  · refine once.quiet (countDispatch_self cpu _ _ nofun nofun) ?_
    rw [here]
    intro undecided
    rcases moved.undecided undecided with round | ⟨_, before⟩
    · cases round
    · exact before
  · have counted : roundDispatches cpu (labels ++ [(cpu, .lotteryRound)]) =
        0 := by
      rw [roundDispatches_append]
      exact if_pos rfl
    exact ⟨counted.le.trans (Nat.zero_le 1), fun _ => counted⟩

theorem AtMostOne.finished (once : AtMostOne cpu labels machine) (self : Slot) (resume : Resume) :
    AtMostOne cpu (labels ++ [(cpu, .quiet)]) (machine.finish cpu self resume) := by
  refine once.quiet (countDispatch_self cpu _ _ nofun nofun) ?_
  have here : (machine.finish cpu self resume).sched cpu = resume.next :=
    update_self ..
  rw [here]
  cases resume <;> exact False.elim

theorem AtMostOne.performed (once : AtMostOne cpu labels machine)
    (moved : ThreadStep self machine.procs machine.nextpid (machine.thread self) move after) :
    AtMostOne cpu (labels ++ [(cpu, move.event)]) (machine.perform cpu self resume move after) := by
  refine once.quiet (countDispatch_self cpu _ _ moved.not_lotteryRound
    fun _ => moved.not_dispatch) ?_
  cases switches : move.switches with
  | true =>
    rw [perform_sched_switches switches]
    exact False.elim
  | false =>
    rw [perform_sched_stays switches]
    exact id

theorem Step.atMostOne (once : AtMostOne cpu labels machine) (taken : Step machine label next) :
    AtMostOne cpu (labels ++ [label]) next := by
  by_cases own : label.1 = cpu
  · subst own
    cases taken with
    | schedule moved => exact once.scheduled moved
    | dispatch chosen => exact once.dispatched chosen
    | finish => exact once.finished _ _
    | thread _ moved => exact once.performed moved
    | wakeup => exact once.quiet (countDispatch_self _ _ _ nofun nofun) id
  · refine once.quiet (countDispatch_other own _) ?_
    obtain ⟨acting, event⟩ := label
    rw [taken.sched_other (Ne.symm own)]
    exact id

theorem run_atMostOne (cpu : Cpu) (run : Transition.Run (@Step Cpu _) boot labels machine) :
    AtMostOne cpu labels machine := by
  refine run.history (AtMostOne cpu) ⟨Nat.zero_le 1, fun _ => rfl⟩ ?_
  intro past middle label after _ once taken
  exact taken.atMostOne once

/-- In every run a process whose lock is free is RUNNING exactly when one CPU
has it, allocated processes hold tickets, a ZOMBIE only becomes UNUSED, and a
lottery round dispatches at most one process. -/
theorem dispatch_safety (run : Transition.Run (@Step Cpu _) boot labels machine) :
    (∀ slot, machine.lock (.proc slot) = none → ((machine.procs slot).state = .running ↔ ∃! cpu,
        machine.proc cpu = some slot) ∧ ((machine.procs slot).state ≠ .running → ∀ cpu,
        machine.proc cpu ≠ some slot)) ∧ (∀ slot, (machine.procs slot).state ≠ .unused → 1 ≤
        (machine.procs slot).tickets.toInt) ∧ (∀ label next slot, Step machine label next →
        (machine.procs slot).state = .zombie → (next.procs slot).state = .zombie ∨
        (next.procs slot).state = .unused) ∧ ∀ cpu, roundDispatches cpu labels ≤ 1 := by
  have coherent := run_coherent run
  refine ⟨fun slot => coherent.running_iff, run_ticketed run, ?_,
    fun cpu => (run_atMostOne cpu run).atMostOne⟩
  rintro ⟨cpu, event⟩ next slot taken zombie
  obtain ⟨legal, procs⟩ := taken.legal coherent
  rw [procs]
  exact LifeEvent.zombie_apply legal zombie

theorem started_initproc_on_one_cpu : ∃! cpu, started.proc cpu = some initproc :=
  ((dispatch_safety started_run).1 initproc rfl).1.mp rfl

end Machine

end Xv6Lottery
