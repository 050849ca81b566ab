import Xv6Lottery.Proc.Killed

namespace Xv6Lottery

/-! allocpid() counts in an int that nothing keeps from wrapping. -/

/-- The processes of the table can be told apart by positive pids. -/
structure ProcTable.LivePids (table : ProcTable) : Prop where
  positive : ∀ slot, (table slot).state ≠ .unused → 1 ≤ (table slot).pid.toInt
  distinct : ∀ first second, (table first).state ≠ .unused → (table second).state ≠ .unused →
    (table first).pid = (table second).pid → first = second

def LifeEvent.allocates : LifeEvent → Bool
  | .alloc _ _ _ => true
  | _ => false

theorem ThreadStep.alloc_pid (taken : ThreadStep self table nextpid before move after)
    (allocates : move.event = .alloc parent child pid) : pid = nextpid := by
  cases taken with
  | allocHit =>
    cases allocates
    rfl
  | _ => cases allocates

namespace Machine

variable {Cpu : Type}

def allocations (labels : List (Cpu × LifeEvent)) : Nat :=
  labels.countP fun label => label.2.allocates

theorem allocations_append (labels : List (Cpu × LifeEvent)) (label : Cpu × LifeEvent) :
    allocations (labels ++ [label]) = allocations labels + if label.2.allocates then 1 else 0 := by
  simp [allocations, List.countP_append, List.countP_cons]

variable [DecidableEq Cpu] {machine next : Machine Cpu}

theorem perform_nextpid {thread : Thread} :
    (machine.perform cpu self resume move thread).nextpid =
      machine.nextpid + if move.event.allocates then 1 else 0 := by
  unfold perform
  dsimp only
  cases move.event with
  | alloc => rfl
  | _ => exact (BitVec.add_zero _).symm

theorem Step.nextpid (taken : Step machine (cpu, event) next) :
    next.nextpid = machine.nextpid + (if event.allocates then 1 else 0) ∧ ∀ self child pid, event =
      .alloc self child pid → pid = machine.nextpid := by
  cases taken with
  | schedule moved =>
    rcases moved.event_eq with rfl | rfl <;> exact ⟨(BitVec.add_zero _).symm, nofun⟩
  | dispatch | finish | wakeup => exact ⟨(BitVec.add_zero _).symm, nofun⟩
  | thread _ moved =>
    exact ⟨perform_nextpid, fun _ _ _ allocates =>
      moved.alloc_pid allocates⟩

/-- While no more than INT_MAX pids were given out, all of them are below the
counter. -/
structure PidsBelow (labels : List (Cpu × LifeEvent)) (machine : Machine Cpu) : Prop where
  counter : machine.nextpid = BitVec.ofNat 32 (2 + allocations labels)
  below : allocations labels ≤ 2 ^ 31 - 2 → ∀ slot, (machine.procs slot).state ≠ .unused →
    1 ≤ (machine.procs slot).pid.toNat ∧ (machine.procs slot).pid.toNat < 2 + allocations labels
  distinct : allocations labels ≤ 2 ^ 31 - 2 → ∀ first second,
    (machine.procs first).state ≠ .unused → (machine.procs second).state ≠ .unused →
    (machine.procs first).pid = (machine.procs second).pid → first = second

omit [DecidableEq Cpu] in
theorem PidsBelow.livePids (pids : PidsBelow labels machine)
    (few : allocations labels ≤ 2 ^ 31 - 2) : machine.procs.LivePids where
  positive slot inUse := by
    have bounds := pids.below few slot inUse
    rw [BitVec.toInt_eq_toNat_of_lt (by omega)]
    omega
  distinct := pids.distinct few

omit [DecidableEq Cpu] in
theorem boot_pidsBelow : PidsBelow [] (boot : Machine Cpu) := by
  have only : ∀ slot, ((boot : Machine Cpu).procs slot).state ≠ .unused → slot = initproc := by
    intro slot inUse
    by_contra other
    exact inUse (congrArg Proc.state (if_neg other))
  refine ⟨rfl, fun _ slot inUse => ?_, fun _ first second inFirst inSecond _ =>
    (only first inFirst).trans (only second inSecond).symm⟩
  rw [only slot inUse]
  change 1 ≤ (1 : BitVec 32).toNat ∧ (1 : BitVec 32).toNat < 2 + 0
  decide

theorem Step.pid_cases (coherent : machine.Coherent) (taken : Step machine (cpu, event) next)
    (inUse : (next.procs slot).state ≠ .unused) :
    (∃ self, event = .alloc self slot machine.nextpid ∧ (next.procs slot).pid = machine.nextpid) ∨
      (∀ self pid, event ≠ .alloc self slot pid) ∧ (machine.procs slot).state ≠ .unused ∧
      (next.procs slot).pid = (machine.procs slot).pid := by
  obtain ⟨legal, procs⟩ := taken.legal coherent
  rw [procs] at inUse ⊢
  by_cases allocated : ∃ self pid, event = .alloc self slot pid
  · obtain ⟨self, pid, rfl⟩ := allocated
    obtain rfl := taken.nextpid.2 self slot pid rfl
    refine .inl ⟨self, rfl, ?_⟩
    rw [LifeEvent.apply_target machine.procs rfl]
    rfl
  · have spared : ∀ self pid, event ≠ .alloc self slot pid :=
      fun self pid allocates => allocated ⟨self, pid, allocates⟩
    refine .inr ⟨spared, LifeEvent.unused_before legal inUse spared, ?_⟩
    rcases event.pid_apply machine.procs slot with
      same | ⟨self, pid, allocates⟩ | freed
    · exact same
    · exact absurd allocates (spared self pid)
    · exact absurd freed.1 inUse

theorem Step.pidsBelow (coherent : machine.Coherent) (pids : PidsBelow labels machine)
    (taken : Step machine (cpu, event) next) : PidsBelow (labels ++ [(cpu, event)]) next := by
  have count := allocations_append labels (cpu, event)
  have counter := pids.counter
  -- Below the bound the counter itself has not wrapped.
  have fresh : ∀ self child pid, event = .alloc self child pid →
      allocations (labels ++ [(cpu, event)]) ≤ 2 ^ 31 - 2 →
      machine.nextpid.toNat = 2 + allocations labels ∧
        allocations (labels ++ [(cpu, event)]) = allocations labels + 1 := by
    rintro self child pid rfl few
    have more : allocations (labels ++ [(cpu, .alloc self child pid)]) =
        allocations labels + 1 := count
    rw [counter, BitVec.toNat_ofNat, Nat.mod_eq_of_lt (by omega)]
    exact ⟨rfl, more⟩
  have fewer : allocations labels ≤ allocations (labels ++ [(cpu, event)]) := by
    rw [count]
    exact Nat.le_add_right _ _
  refine ⟨?_, fun few slot inUse => ?_, fun few first second inFirst inSecond same => ?_⟩
  · rw [taken.nextpid.1, counter, count, ← Nat.add_assoc]
    dsimp only
    split
    · exact (BitVec.ofNat_add _ 1).symm
    · exact BitVec.add_zero _
  · rcases taken.pid_cases coherent inUse with
      ⟨self, rfl, pid⟩ | ⟨_, before, pid⟩
    · obtain ⟨value, more⟩ := fresh self slot machine.nextpid rfl few
      rw [pid, value, more]
      omega
    · have bounds := pids.below (fewer.trans few) slot before
      rw [pid]
      omega
  · rcases taken.pid_cases coherent inFirst with
        ⟨self, rfl, pidFirst⟩ | ⟨_, beforeFirst, pidFirst⟩ <;>
      rcases taken.pid_cases coherent inSecond with
        ⟨other, allocates, pidSecond⟩ | ⟨_, beforeSecond, pidSecond⟩
    · cases allocates
      rfl
    · have bounds := pids.below (fewer.trans few) second beforeSecond
      have value := (fresh self first machine.nextpid rfl few).1
      rw [pidFirst, pidSecond] at same
      rw [same] at value
      omega
    · subst allocates
      have bounds := pids.below (fewer.trans few) first beforeFirst
      have value := (fresh other second machine.nextpid rfl few).1
      rw [pidFirst, pidSecond] at same
      rw [← same] at value
      omega
    · rw [pidFirst, pidSecond] at same
      exact pids.distinct (fewer.trans few) first second beforeFirst beforeSecond same

theorem run_pidsBelow (run : Transition.Run (@Step Cpu _) boot labels machine) :
    PidsBelow labels machine :=
  run.history PidsBelow boot_pidsBelow fun past pids taken =>
    taken.pidsBelow (run_coherent past) pids

/-- Pids tell the processes apart as long as at most 2^31 - 2 were allocated;
the next allocation gives a negative pid. -/
theorem live_pids_until_wrap (run : Transition.Run (@Step Cpu _) boot labels machine) :
    (allocations labels ≤ 2 ^ 31 - 2 → machine.procs.LivePids) ∧ ∀ cpu self child pid next,
      allocations labels = 2 ^ 31 - 2 → Step machine (cpu, .alloc self child pid) next →
      ¬next.procs.LivePids := by
  have pids := run_pidsBelow run
  refine ⟨pids.livePids, ?_⟩
  intro cpu self child pid next full taken live
  obtain rfl := taken.nextpid.2 self child pid rfl
  obtain ⟨_, procs⟩ := taken.legal (run_coherent run)
  have positive := live.positive child
  rw [procs, LifeEvent.apply_target machine.procs rfl] at positive
  have negative : ¬1 ≤ machine.nextpid.toInt := by
    rw [pids.counter, full]
    decide
  exact negative (positive nofun)

theorem forked_child_pid :
    started.forks.procs.LivePids ∧ (started.forks.procs firstChild).pid ≠
      (started.forks.procs initproc).pid := by
  have forked := forks_run rfl rfl started_lock (by decide) rfl
  have live := (live_pids_until_wrap (started_run.trans forked)).1 (by decide)
  refine ⟨live, fun same => ?_⟩
  exact absurd (live.distinct firstChild initproc (by decide) (by decide) same)
    (by decide)

/-! fork() that runs out of memory takes a pid and gives back the slot, so
that initproc alone can move the counter as far as it likes. -/

structure Alone (machine : Machine Unit) : Prop where
  runs : machine.sched () = .running initproc (.roundRobin slots.tail)
  ready : machine.thread initproc = Point.code.thread
  free : ∀ lock, machine.lock lock = none
  initState : (machine.procs initproc).state = .running
  initPid : (machine.procs initproc).pid = 1
  unused : (machine.procs firstChild).state = .unused

theorem started_alone : started.Alone where
  runs := rfl
  ready := rfl
  free := started_lock
  initState := by decide
  initPid := by decide
  unused := rfl

def allocs (machine : Machine Unit) : Machine Unit :=
  ((machine.initStep {} (.alloc slots)).initStep
    { passes := some (.proc initproc) } (.alloc slots.tail)).initStep
    { event := .alloc initproc firstChild machine.nextpid
      acquires := some (.proc firstChild) } (.copying firstChild)

def allocLabels (pid : BitVec 32) : List (Unit × LifeEvent) :=
  [((), .quiet), ((), .quiet), ((), .alloc initproc firstChild pid)]

theorem allocs_run {machine : Machine Unit} (alone : machine.Alone) :
    Transition.Run Step machine (allocLabels machine.nextpid) machine.allocs := by
  have begun : Transition.Run Step machine [] machine := .refl
  have inUse : (machine.procs initproc).state ≠ .unused := by
    rw [alone.initState]
    nofun
  have called := run_initStep begun {} (.alloc slots) alone.runs
    (alone.ready ▸ .call .fork) nofun nofun
  have scanned := run_initStep called { passes := some (.proc initproc) }
    (.alloc slots.tail) alone.runs (.allocMiss inUse) (fun _ _ => alone.free _) nofun
  exact run_initStep scanned
    { event := .alloc initproc firstChild machine.nextpid
      acquires := some (.proc firstChild) } (.copying firstChild) alone.runs
    (.allocHit alone.unused) nofun (fun _ _ => alone.free _)

def failedFork (machine : Machine Unit) : Machine Unit :=
  machine.allocs.initStep
    { event := .abandon initproc firstChild
      releases := [.proc firstChild] } .code

theorem failedFork_run {machine : Machine Unit} (alone : machine.Alone) :
    Transition.Run Step machine (allocLabels machine.nextpid ++
        [((), .abandon initproc firstChild)]) machine.failedFork :=
  run_initStep (allocs_run alone) { event := .abandon initproc firstChild
                                    releases := [.proc firstChild] } .code
    alone.runs .forkFails nofun nofun

theorem Alone.failedFork {machine : Machine Unit} (alone : machine.Alone) :
    machine.failedFork.Alone where
  runs := alone.runs
  ready := rfl
  free lock := by
    by_cases taken : lock ∈ [Lock.proc firstChild]
    · exact if_pos taken
    · have other : ¬some (Lock.proc firstChild) = some lock := by
        rintro ⟨⟩
        exact taken (.head _)
      refine (if_neg taken).trans ((if_neg nofun).trans ?_)
      refine (if_neg other).trans ?_
      exact initStep_lock (initStep_lock alone.free rfl _) rfl _ lock
  initState := alone.initState
  initPid := alone.initPid
  unused := rfl

theorem failedForks_run {machine : Machine Unit} (alone : machine.Alone) (count : Nat) :
    ∃ labels next, Transition.Run Step machine labels next ∧ next.Alone ∧ next.nextpid =
      machine.nextpid + BitVec.ofNat 32 count := by
  induction count with
  | zero => exact ⟨[], machine, .refl, alone, (BitVec.add_zero _).symm⟩
  | succ count induction =>
    obtain ⟨labels, middle, run, still, counter⟩ := induction
    refine ⟨_, middle.failedFork, run.trans (failedFork_run still), still.failedFork, ?_⟩
    change middle.nextpid + 1 = _
    rw [counter, BitVec.add_assoc, BitVec.ofNat_add]
    rfl

/-- A run from boot whose last step gives a child any given pid while
initproc, whose pid is 1, is running. -/
theorem child_pid_reachable (pid : BitVec 32) :
    ∃ labels machine, Transition.Run Step (boot : Machine Unit) labels machine ∧
      (machine.procs initproc).state = .running ∧ (machine.procs initproc).pid = 1 ∧
      (machine.procs firstChild).state = .used ∧ (machine.procs firstChild).pid = pid := by
  obtain ⟨labels, machine, run, alone, counter⟩ :=
    failedForks_run started_alone (pid - 2).toNat
  refine ⟨_, machine.allocs, (started_run.trans run).trans
    (allocs_run alone), alone.initState, alone.initPid, rfl, ?_⟩
  change machine.nextpid = pid
  rw [counter, BitVec.ofNat_toNat, BitVec.setWidth_eq]
  change 2 + (pid - 2) = pid
  rw [BitVec.add_comm, BitVec.sub_add_cancel]

/-- After 2^31 - 2 failed forks a child is born with pid -2^31; after
2^32 - 1 of them with pid 1, which initproc still has. -/
theorem pids_wrap :
    (∃ labels machine, Transition.Run Step (boot : Machine Unit) labels machine ∧
        (machine.procs firstChild).state = .used ∧ (machine.procs firstChild).pid.toInt = -2 ^ 31) ∧
      ∃ labels machine, Transition.Run Step (boot : Machine Unit) labels machine ∧
      (machine.procs firstChild).state = .used ∧ (machine.procs initproc).state = .running ∧
      (machine.procs firstChild).pid = (machine.procs initproc).pid := by
  constructor
  · obtain ⟨labels, machine, run, _, _, used, pid⟩ :=
      child_pid_reachable (BitVec.intMin 32)
    refine ⟨labels, machine, run, used, ?_⟩
    rw [pid]
    decide
  · obtain ⟨labels, machine, run, running, initPid, used, pid⟩ :=
      child_pid_reachable 1
    exact ⟨labels, machine, run, used, running, pid.trans initPid.symm⟩

end Machine

end Xv6Lottery
