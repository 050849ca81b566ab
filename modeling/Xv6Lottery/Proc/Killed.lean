import Xv6Lottery.Proc.Coherent

namespace Xv6Lottery

/-! The killed flag, which lives in the slot and not in the process. -/

namespace LifeEvent

theorem killed_apply (event : LifeEvent) (table : ProcTable) (slot : Slot) :
    (event.apply table slot).killed = (table slot).killed ∨ (∃ pid, event = .kill slot pid) ∨
      event = .setkilled slot ∨ (event.apply table slot).killed = false := by
  by_cases targets : event.target = some slot
  · rw [apply_target table targets]
    cases event with
    | kill slot pid =>
      cases targets
      exact .inr (.inl ⟨pid, rfl⟩)
    | setkilled self =>
      cases targets
      exact .inr (.inr (.inl rfl))
    | abandon | reap => exact .inr (.inr (.inr rfl))
    | _ => exact .inl rfl
  · exact .inl (congrArg Proc.killed (apply_other table targets))

theorem pid_apply (event : LifeEvent) (table : ProcTable) (slot : Slot) :
    (event.apply table slot).pid = (table slot).pid ∨ (∃ self pid, event = .alloc self slot pid) ∨
      (event.apply table slot).state = .unused ∧ (event.apply table slot).pid = 0 := by
  by_cases targets : event.target = some slot
  · rw [apply_target table targets]
    cases event with
    | alloc self child pid =>
      cases targets
      exact .inr (.inl ⟨self, pid, rfl⟩)
    | abandon | reap => exact .inr (.inr ⟨rfl, rfl⟩)
    | _ => exact .inl rfl
  · exact .inl (congrArg Proc.pid (apply_other table targets))

/-- A free slot, as freeproc() leaves it. -/
def Vacant (table : ProcTable) : Prop :=
  ∀ slot, (table slot).state = .unused → (table slot).pid = 0 ∧ (table slot).killed = false

/-- The section is not that of a kill(0) that stops at a free slot. -/
def Aimed (table : ProcTable) (event : LifeEvent) : Prop :=
  ∀ slot, event = .kill slot 0 → (table slot).state ≠ .unused

section Flag

variable {event : LifeEvent} (legal : event.Legal table)

include legal

theorem unused_before (inUse : (event.apply table slot).state ≠ .unused)
    (spared : ∀ self pid, event ≠ .alloc self slot pid) : (table slot).state ≠ .unused := by
  intro unused
  rcases edge_apply legal slot with same | edge
  · exact inUse (same.trans unused)
  · rw [unused] at edge
    generalize (event.apply table slot).state = after at edge
    cases edge
    exact spared _ _ rfl

theorem vacant_apply (vacant : Vacant table) (aimed : event.Aimed table) :
    Vacant (event.apply table) := by
  intro slot unused
  rcases edge_apply legal slot with same | edge
  · have before : (table slot).state = .unused := same.symm.trans unused
    have clear := vacant slot before
    constructor
    · rcases event.pid_apply table slot with kept | ⟨self, pid, rfl⟩ | freed
      · exact kept.trans clear.1
      · rw [apply_target table rfl] at unused
        cases unused
      · exact freed.2
    · rcases event.killed_apply table slot with
        kept | ⟨pid, rfl⟩ | rfl | cleared
      · exact kept.trans clear.2
      · obtain rfl : (table slot).pid = pid := legal
        rw [clear.1] at aimed
        exact absurd before (aimed slot rfl)
      · cases legal.symm.trans before
      · exact cleared
  · rw [unused] at edge
    generalize (table slot).state = before at edge
    cases edge <;> (rw [apply_target table rfl]; exact ⟨rfl, rfl⟩)

end Flag

end LifeEvent

namespace Machine

variable {Cpu : Type} {machine next : Machine Cpu}

/-- Since its slot was last allocated, a kill found the process under this
pid, or it was marked by setkilled(). -/
def KilledSince (labels : List (Cpu × LifeEvent)) (slot : Slot) (pid : BitVec 32) : Prop :=
  ∃ earlier label later, labels = earlier ++ label :: later ∧
    (label.2 = .kill slot pid ∨ label.2 = .setkilled slot) ∧
    ∀ after ∈ later, ∀ self fresh, after.2 ≠ .alloc self slot fresh

theorem KilledSince.append (killed : KilledSince labels slot pid) {label : Cpu × LifeEvent}
    (spared : ∀ self fresh, label.2 ≠ .alloc self slot fresh) :
    KilledSince (labels ++ [label]) slot pid := by
  obtain ⟨earlier, marked, later, rfl, marks, kept⟩ := killed
  refine ⟨earlier, marked, later ++ [label], by simp, marks, ?_⟩
  intro after member
  rcases List.mem_append.mp member with old | last
  · exact kept after old
  · rw [List.mem_singleton.mp last]
    exact spared

theorem KilledSince.last (labels : List (Cpu × LifeEvent))
    (marks : label.2 = .kill slot pid ∨ label.2 = .setkilled slot) :
    KilledSince (labels ++ [label]) slot pid :=
  ⟨labels, label, [], rfl, marks, nofun⟩

structure FlagsJustified (labels : List (Cpu × LifeEvent)) (machine : Machine Cpu) : Prop where
  coherent : machine.Coherent
  vacant : LifeEvent.Vacant machine.procs
  killed : ∀ slot, (machine.procs slot).state ≠ .unused → (machine.procs slot).killed = true →
    KilledSince labels slot (machine.procs slot).pid

variable [DecidableEq Cpu]

/-- A step that is not a kill(0) that stops at a free slot. -/
def AimedStep (machine : Machine Cpu) (label : Cpu × LifeEvent) (next : Machine Cpu) : Prop :=
  Step machine label next ∧ label.2.Aimed machine.procs

omit [DecidableEq Cpu] in
theorem boot_flagsJustified : FlagsJustified [] (boot : Machine Cpu) where
  coherent := Coherent.boot_coherent
  vacant := by
    intro slot unused
    unfold boot ProcTable.userinit at unused ⊢
    dsimp only at unused ⊢
    split at unused
    · cases unused
    · next other =>
        rw [if_neg other]
        exact ⟨rfl, rfl⟩
  killed := by
    intro slot _ killed
    unfold boot ProcTable.userinit at killed
    dsimp only at killed
    split at killed <;> cases killed

theorem AimedStep.killed (justified : FlagsJustified labels machine)
    (taken : AimedStep machine label next) (inUse : (next.procs slot).state ≠ .unused)
    (killed : (next.procs slot).killed = true) :
    KilledSince (labels ++ [label]) slot (next.procs slot).pid := by
  obtain ⟨cpu, event⟩ := label
  obtain ⟨legal, procs⟩ := taken.1.legal justified.coherent
  rw [procs] at inUse killed ⊢
  by_cases allocated : ∃ self pid, event = .alloc self slot pid
  · obtain ⟨self, pid, rfl⟩ := allocated
    rw [LifeEvent.apply_target machine.procs rfl] at killed
    cases (justified.vacant slot legal.2).2.symm.trans killed
  · have spared : ∀ self pid, event ≠ .alloc self slot pid :=
      fun self pid allocates => allocated ⟨self, pid, allocates⟩
    have samePid : (event.apply machine.procs slot).pid = (machine.procs slot).pid := by
      rcases event.pid_apply machine.procs slot with
        same | ⟨self, pid, allocates⟩ | freed
      · exact same
      · exact absurd allocates (spared self pid)
      · exact absurd freed.1 inUse
    rw [samePid]
    rcases event.killed_apply machine.procs slot with
      kept | ⟨pid, rfl⟩ | rfl | cleared
    · exact (justified.killed slot (LifeEvent.unused_before legal inUse spared)
        (kept.symm.trans killed)).append spared
    · obtain rfl : (machine.procs slot).pid = pid := legal
      exact KilledSince.last labels (.inl rfl)
    · exact KilledSince.last labels (.inr rfl)
    · cases cleared.symm.trans killed

theorem run_flagsJustified (run : Transition.Run (@AimedStep Cpu _) boot labels machine) :
    FlagsJustified labels machine := by
  refine run.history FlagsJustified boot_flagsJustified ?_
  rintro past middle ⟨cpu, event⟩ after _ justified taken
  obtain ⟨legal, procs⟩ := taken.1.legal justified.coherent
  refine ⟨taken.1.coherent justified.coherent, ?_, fun slot inUse killed =>
    taken.killed justified inUse killed⟩
  rw [procs]
  exact LifeEvent.vacant_apply legal justified.vacant taken.2

/-- In every run without a kill(0) that stops at a free slot, a killed flag
comes from a kill() of this process under its pid or from setkilled(), and a
child starts with the flag clear. -/
theorem killed_flag_justified (run : Transition.Run (@AimedStep Cpu _) boot labels machine) :
    (∀ slot, (machine.procs slot).state ≠ .unused → (machine.procs slot).killed = true →
        KilledSince labels slot (machine.procs slot).pid) ∧
      (∀ cpu slot pid next, AimedStep machine (cpu, .kill slot pid) next →
        (machine.procs slot).state ≠ .unused ∧ (machine.procs slot).pid = pid) ∧
      ∀ cpu self child pid next, AimedStep machine (cpu, .alloc self child pid) next →
      (next.procs child).killed = false := by
  have justified := run_flagsJustified run
  refine ⟨justified.killed, ?_, ?_⟩
  · intro cpu slot pid next taken
    obtain ⟨legal, _⟩ := taken.1.legal justified.coherent
    obtain rfl : (machine.procs slot).pid = pid := legal
    refine ⟨fun unused => ?_, rfl⟩
    have aimed := taken.2
    rw [(justified.vacant slot unused).1] at aimed
    exact aimed slot rfl unused
  · intro cpu self child pid next taken
    obtain ⟨legal, procs⟩ := taken.1.legal justified.coherent
    rw [procs, LifeEvent.apply_target machine.procs rfl]
    exact (justified.vacant child legal.2).2

theorem aimed_run (run : Transition.Run Step start labels machine)
    (aimed : ∀ label ∈ labels, ∀ slot, label.2 ≠ .kill slot 0) :
    Transition.Run AimedStep start labels machine := by
  induction run with
  | refl => exact .refl
  | tail _ taken induction =>
    refine .tail (induction fun label member =>
      aimed label (List.mem_append_left _ member)) ⟨taken, ?_⟩
    intro slot kills
    exact absurd kills (aimed _ (by simp) slot)

/-! initproc forks and kills its child. -/

theorem killed_child_was_killed :
    KilledSince (startLabels ++ forkLabels 2 ++ killLabels 2) firstChild
      ((started.forks.killsSecond 2).procs firstChild).pid := by
  have forked := forks_run rfl rfl started_lock (by decide) rfl
  have killed := killsSecond_run rfl rfl (forks_lock started_lock)
    (by decide) (rfl : (started.forks.procs firstChild).pid = 2)
  have run := aimed_run ((started_run.trans forked).trans killed) (by decide)
  exact (killed_flag_justified run).1 firstChild (by decide) rfl

/-! kill(0) of initproc stops at the free slot behind it, whose pid is 0. The
next child, pid 2, is born with its flag set. -/

theorem kill_zero_marks_next_child :
    Transition.Run Step boot (startLabels ++ killLabels 0 ++ forkLabels 2)
      (started.killsSecond 0).forks ∧ (∀ slot, (started.procs slot).state ≠ .unused →
        (started.procs slot).pid ≠ 0) ∧ ((started.killsSecond 0).forks.procs firstChild).state =
      .runnable ∧ ((started.killsSecond 0).forks.procs firstChild).killed = true ∧
      ¬KilledSince (startLabels ++ killLabels 0 ++ forkLabels 2) firstChild
      ((started.killsSecond 0).forks.procs firstChild).pid := by
  have killed := killsSecond_run rfl rfl started_lock (by decide)
    (rfl : (started.procs firstChild).pid = 0)
  have forked : Transition.Run Step (started.killsSecond 0) (forkLabels 2)
      (started.killsSecond 0).forks :=
    forks_run rfl rfl (killsSecond_lock started_lock 0) (by decide) rfl
  refine ⟨(started_run.trans killed).trans forked, by decide +kernel, rfl,
    rfl, ?_⟩
  rintro ⟨earlier, label, later, split, marks, _⟩
  have unmarked : ∀ label ∈ startLabels ++ killLabels 0 ++ forkLabels 2,
      label.2 ≠ .kill firstChild 2 ∧ label.2 ≠ .setkilled firstChild := by
    decide
  obtain ⟨notKilled, notMarked⟩ := unmarked label (by rw [split]; simp)
  rcases marks with kills | sets
  · exact notKilled kills
  · exact notMarked sets

end Machine

end Xv6Lottery
