import Xv6Lottery.Interrupt.Nesting

/-! What swtch() hands over between a process and scheduler(), and the
interrupt state of a kernel thread over whole runs. -/

namespace Xv6Lottery.Interrupts

open Function

variable {Process Cpu Name : Type}

structure Parked (slot : Process) (cpus : Type) (frame : Frame Process Name) : Prop where
  returns : frame.Returns (.proc slot : Context Process cpus)
  phase : frame.phase = .unborn ∨ ∃ next, frame.phase = .away frame.entry next ∧
      next.Holds (.proc slot : Context Process cpus) [.proc slot]

theorem Switches.holds (switches : Switches point next)
    (holds : point.Holds (.proc slot : Context Process Cpu) held) :
    held = [.proc slot] ∧ next.Holds (.proc slot : Context Process Cpu) [.proc slot] := by
  cases switches with
  | yield | sleep =>
    obtain ⟨_, ⟨⟩, rfl⟩ := holds
    exact ⟨rfl, slot, rfl, rfl⟩

section Locks

variable [DecidableEq Process] [DecidableEq Name]
  {lock : Lock Process Name → Option Cpu} {op : LockOp Process Name}

theorem locks_here (owned : lock lk = some cpu ↔ lk ∈ held) (distinct : held.Nodup) :
    op.apply lock cpu lk = some cpu ↔ lk ∈ op.held held := by
  cases op with
  | none => exact owned
  | take taken =>
    by_cases same : lk = taken
    · subst same
      simp [LockOp.apply, LockOp.held]
    · simp [LockOp.apply, LockOp.held, same, owned]
  | drop dropped =>
    by_cases same : lk = dropped
    · subst same
      simp [LockOp.apply, LockOp.held, distinct.mem_erase_iff]
    · simp [LockOp.apply, LockOp.held, update_of_ne same, owned, List.mem_erase_of_ne same]

theorem locks_elsewhere (permitted : op.Permitted lock cpu) (differs : cpu ≠ other) :
    op.apply lock cpu lk = some other ↔ lock lk = some other := by
  cases op with
  | none => exact .rfl
  | take taken =>
    by_cases same : lk = taken
    · subst same
      simp [LockOp.apply, differs, show lock lk = none from permitted]
    · simp [LockOp.apply, update_of_ne same]
  | drop dropped =>
    by_cases same : lk = dropped
    · subst same
      simp [LockOp.apply, differs, show lock lk = some cpu from permitted]
    · simp [LockOp.apply, update_of_ne same]

end Locks

namespace Machine

structure Coherent (machine : Machine Process Cpu Name) : Prop where
  sound : ∀ cpu, Sound (machine.current cpu) (machine.hart cpu) (machine.running cpu)
  own : ∀ {cpu other}, machine.current cpu = .sched other → other = cpu
  single : ∀ {cpu other slot}, machine.current cpu = .proc slot →
    machine.current other = .proc slot → cpu = other
  lent : ∀ {cpu slot}, machine.current cpu = .proc slot →
    (machine.frame (.sched cpu)).Returns (.sched cpu : Context Process Cpu)
  parked : ∀ {slot}, (∀ cpu, machine.current cpu ≠ .proc slot) →
    Parked slot Cpu (machine.frame (.proc slot))
  locks : ∀ lk cpu, machine.lock lk = some cpu ↔ lk ∈ (machine.running cpu).held

section Swtch

variable [DecidableEq Process] [DecidableEq Cpu]
  {machine : Machine Process Cpu Name} {next : Context Process Cpu}
  {left entered : Frame Process Name}

theorem swtch_frame_next : (machine.swtch cpu next left entered).frame next = entered :=
  update_self ..

theorem swtch_frame_left (differs : machine.current cpu ≠ next) :
    (machine.swtch cpu next left entered).frame (machine.current cpu) = left :=
  (update_of_ne differs _ _).trans (update_self ..)

theorem swtch_frame_other (notNext : context ≠ next) (notLeft : context ≠ machine.current cpu) :
    (machine.swtch cpu next left entered).frame context = machine.frame context :=
  (update_of_ne notNext _ _).trans (update_of_ne notLeft _ _)

end Swtch

theorem boot_coherent : (boot : Machine Process Cpu Name).Coherent where
  sound cpu := ⟨rfl, nofun, nofun, rfl, nofun, .nil, nofun⟩
  own := by
    rintro cpu other ⟨⟩
    rfl
  single := nofun
  lent := nofun
  parked _ := ⟨nofun, .inl rfl⟩
  locks lk cpu := ⟨nofun, nofun⟩

namespace Coherent

variable {machine : Machine Process Cpu Name} (coherent : machine.Coherent)

include coherent

theorem current_injective (same : machine.current cpu = machine.current other) : cpu = other := by
  cases context : machine.current cpu with
  | proc slot => exact coherent.single context (same.symm.trans context)
  | sched owner =>
    exact (coherent.own context).symm.trans (coherent.own (same.symm.trans context))

theorem not_sched_of_proc (runs : machine.current cpu = .proc slot)
    (other : Cpu) : machine.current other ≠ .sched cpu := by
  intro elsewhere
  cases coherent.own elsewhere
  cases runs.symm.trans elsewhere

variable [DecidableEq Process] [DecidableEq Cpu]

/-- What a context that is left and one that is entered owe to each other. -/
structure Handover (machine : Machine Process Cpu Name) (cpu : Cpu)
    (next : Context Process Cpu) (left entered : Frame Process Name) : Prop where
  sound : Sound next (machine.hart cpu) entered
  own : ∀ owner, next = .sched owner → owner = cpu
  idle : ∀ other, other ≠ cpu → machine.current other ≠ next
  differs : machine.current cpu ≠ next
  held : entered.held = (machine.running cpu).held
  lent : ∀ slot, next = .proc slot → machine.current cpu = .sched cpu ∧ left.Returns (.sched cpu)
  parked : ∀ slot, machine.current cpu = .proc slot → Parked slot Cpu left

theorem swtch (handover : Handover machine cpu next left entered) :
    (machine.swtch cpu next left entered).Coherent := by
  have atCpu : (machine.swtch cpu next left entered).current cpu = next :=
    update_self ..
  have current : ∀ {other}, other ≠ cpu → (machine.swtch cpu next left entered).current other =
        machine.current other := fun differs =>
    update_of_ne differs _ _
  have runningHere : (machine.swtch cpu next left entered).running cpu = entered := by
    rw [running, atCpu]
    exact swtch_frame_next
  have elsewhere : ∀ {other}, other ≠ cpu → (machine.swtch cpu next left entered).running other =
        machine.running other := by
    intro other differs
    rw [running, current differs]
    exact swtch_frame_other (handover.idle other differs) fun same =>
      differs (coherent.current_injective same)
  refine ⟨fun other => ?_, fun {other owner} executes => ?_,
    fun {first second slot} one two => ?_, fun {other slot} executes => ?_,
    fun {slot} idle => ?_, fun lk other => ?_⟩
  · by_cases same : other = cpu
    · subst same
      rw [runningHere, atCpu]
      exact handover.sound
    · rw [elsewhere same, current same]
      exact coherent.sound other
  · by_cases same : other = cpu
    · subst same
      exact handover.own owner (atCpu.symm.trans executes)
    · exact coherent.own ((current same).symm.trans executes)
  · by_cases atFirst : first = cpu
    · by_cases atSecond : second = cpu
      · exact atFirst.trans atSecond.symm
      · subst atFirst
        rw [atCpu] at one
        rw [current atSecond] at two
        exact absurd (two.trans one.symm) (handover.idle second atSecond)
    · rw [current atFirst] at one
      by_cases atSecond : second = cpu
      · subst atSecond
        rw [atCpu] at two
        exact absurd (one.trans two.symm) (handover.idle first atFirst)
      · rw [current atSecond] at two
        exact coherent.single one two
  · by_cases same : other = cpu
    · subst same
      obtain ⟨origin, returns⟩ := handover.lent slot (atCpu.symm.trans executes)
      rw [← origin, swtch_frame_left handover.differs]
      exact origin ▸ returns
    · rw [current same] at executes
      have notNext : (.sched other : Context Process Cpu) ≠ next := by
        intro equal
        exact same (handover.own other equal.symm)
      have notLeft : (.sched other : Context Process Cpu) ≠ machine.current cpu :=
        (coherent.not_sched_of_proc executes cpu).symm
      rw [swtch_frame_other notNext notLeft]
      exact coherent.lent executes
  · have notNext : (.proc slot : Context Process Cpu) ≠ next :=
      fun equal => idle cpu (atCpu.trans equal.symm)
    by_cases equal : machine.current cpu = .proc slot
    · rw [← equal, swtch_frame_left handover.differs]
      exact handover.parked slot equal
    · rw [swtch_frame_other notNext (Ne.symm equal)]
      refine coherent.parked fun other executes => ?_
      by_cases same : other = cpu
      · exact equal (same ▸ executes)
      · exact idle other ((current same).trans executes)
  · by_cases same : other = cpu
    · subst same
      rw [runningHere, handover.held]
      exact coherent.locks lk other
    · rw [elsewhere same]
      exact coherent.locks lk other

theorem sched (runs : machine.current cpu = .proc slot)
    (here : (machine.running cpu).phase = .here point) (switches : Switches point next) :
    (machine.parked cpu slot next).Coherent := by
  have sound := coherent.sound cpu
  rw [runs] at sound
  obtain ⟨held, kept⟩ := switches.holds (here ▸ sound.holds)
  have depth : (machine.hart cpu).noff = 1 := by
    rw [sound.count, here, held]
    rfl
  refine coherent.swtch ⟨?_, ?_, fun other _ =>
    coherent.not_sched_of_proc runs other,
    coherent.not_sched_of_proc runs cpu, rfl, nofun, ?_⟩
  · refine ⟨?_, sound.off, nofun, held, coherent.lent runs, sound.distinct, nofun⟩
    change (machine.hart cpu).noff = (machine.running cpu).held.length + 0
    rw [depth, held]
    rfl
  · rintro owner ⟨⟩
    rfl
  · intro process same
    cases runs.symm.trans same
    have entry := sound.entry slot rfl (by omega)
    rw [here] at entry
    exact ⟨sound.returns, .inr ⟨next, congrArg (Phase.away · next) entry, kept⟩⟩

theorem dispatch (runs : machine.current cpu = .sched cpu)
    (here : (machine.running cpu).phase = .here (.chosen slot))
    (wakes : Wakes (machine.hart cpu).intena (machine.frame (.proc slot)) phase entry) :
    (machine.dispatched cpu slot phase entry).Coherent := by
  have sound := coherent.sound cpu
  have held : (machine.running cpu).held = [.proc slot] := by
    have holds := sound.holds
    rw [here] at holds
    exact holds
  have depth : (machine.hart cpu).noff = 1 := by
    rw [sound.count, here, held]
    rfl
  -- A process that some CPU executes is not in swtch().
  have idle : ∀ other, machine.current other ≠ .proc slot := by
    intro other executes
    have holds := (coherent.sound other).holds
    rw [running, executes] at holds
    cases wakes with
    | away asleep =>
      rw [asleep] at holds
      exact holds
    | unborn asleep =>
      rw [asleep] at holds
      exact holds
  obtain ⟨returns, parked⟩ := coherent.parked idle
  refine coherent.swtch ⟨?_, nofun, fun other _ => idle other, idle cpu, rfl,
    fun _ _ => ⟨runs, ?_⟩, ?_⟩
  · have entered : Phase.Holds (.proc slot : Context Process Cpu)
          [.proc slot] phase ∧ phase.pending = 0 ∧
        (∀ {lk old next}, phase ≠ .disabling lk old next) ∧
        phase.intena (machine.hart cpu) = entry := by
      cases wakes with
      | away asleep =>
        rcases parked with unborn | ⟨next, away, holds⟩
        · cases asleep.symm.trans unborn
        · cases asleep.symm.trans away
          exact ⟨⟨nofun, holds⟩, rfl, nofun, rfl⟩
      | unborn => exact ⟨⟨slot, rfl, rfl⟩, rfl, nofun, rfl⟩
    obtain ⟨holds, settled, notReading, saved⟩ := entered
    refine ⟨?_, sound.off, fun same => absurd same notReading, ?_, returns,
      sound.distinct, fun _ _ _ => saved⟩
    · change (machine.hart cpu).noff = (machine.running cpu).held.length + phase.pending
      rw [depth, held, settled]
      rfl
    · change Phase.Holds _ (machine.running cpu).held phase
      rw [held]
      exact holds
  · rw [runs] at sound
    exact sound.returns
  · intro process same
    cases runs.symm.trans same

variable [DecidableEq Name]

theorem act
    (taken : Local (machine.current cpu) (machine.hart cpu) (machine.running cpu) op after left)
    (permitted : op.Permitted machine.lock cpu) : (machine.acted cpu op after left).Coherent := by
  have here : (machine.acted cpu op after left).running cpu = left :=
    update_self ..
  have elsewhere : ∀ {other}, other ≠ cpu → (machine.acted cpu op after left).running other =
        machine.running other := fun differs =>
    update_of_ne (fun same =>
      differs (coherent.current_injective same)) _ _
  refine ⟨fun other => ?_, coherent.own, coherent.single, ?_, ?_, ?_⟩
  · by_cases same : other = cpu
    · subst same
      rw [here]
      have hart : (machine.acted other op after left).hart other = after :=
        update_self ..
      rw [hart]
      exact taken.sound (coherent.sound other)
    · rw [elsewhere same]
      have hart : (machine.acted cpu op after left).hart other =
          machine.hart other := update_of_ne same _ _
      rw [hart]
      exact coherent.sound other
  · intro other slot runs
    have kept : (machine.acted cpu op after left).frame (.sched other) =
        machine.frame (.sched other) :=
      update_of_ne (coherent.not_sched_of_proc runs cpu).symm _ _
    rw [kept]
    exact coherent.lent runs
  · intro slot idle
    have kept : (machine.acted cpu op after left).frame (.proc slot) = machine.frame (.proc slot) :=
      update_of_ne (idle cpu).symm _ _
    rw [kept]
    exact coherent.parked idle
  · intro lk other
    by_cases same : other = cpu
    · subst same
      rw [here, taken.held]
      exact locks_here (coherent.locks lk other) (coherent.sound other).distinct
    · rw [elsewhere same, ← coherent.locks lk other]
      exact locks_elsewhere permitted (Ne.symm same)

end Coherent

variable [DecidableEq Process] [DecidableEq Cpu] [DecidableEq Name]
  {machine next : Machine Process Cpu Name}

theorem Step.coherent (coherent : machine.Coherent)
    (taken : Step machine cpu next) : next.Coherent := by
  cases taken with
  | act moved permitted => exact coherent.act moved permitted
  | sched runs here switches => exact coherent.sched runs here switches
  | dispatch runs here wakes => exact coherent.dispatch runs here wakes

theorem run_coherent (run : Transition.Run Step boot labels machine) : machine.Coherent :=
  run.invariant Coherent boot_coherent fun coherent taken =>
    taken.coherent coherent

end Machine

end Xv6Lottery.Interrupts
