import Xv6Lottery.Lib.Ownership
import Xv6Lottery.Proc.Machine
import Xv6Lottery.Proc.Outline

namespace Xv6Lottery

open Function

def SchedPoint.locks (thread : Slot → Thread) : SchedPoint → List Lock
  | .running self _ => (thread self).locks self
  | .back self _ => [.proc self]
  | _ => []

theorem SchedPoint.locks_idle {point : SchedPoint}
    (idle : point.proc = none) : point.locks thread = [] := by
  cases point with
  | running | back => cases idle
  | _ => rfl

namespace Machine

variable {Cpu : Type}

/-- The locks that a CPU holds according to the code it executes. -/
def held (machine : Machine Cpu) (cpu : Cpu) : List Lock :=
  (machine.sched cpu).locks machine.thread

def Executes (machine : Machine Cpu) (slot : Slot) : Prop :=
  ∃ cpu resume, machine.sched cpu = .running slot resume

/-- The machine invariant: every thread is where its process state says, each
lock is held by the CPU whose code holds it, and every control point has its
assertion. -/
structure Coherent (machine : Machine Cpu) : Prop where
  proc_eq : ∀ cpu, machine.proc cpu = (machine.sched cpu).proc
  single : ∀ {cpu other slot}, (machine.sched cpu).proc = some slot →
    (machine.sched other).proc = some slot → cpu = other
  owns : Ownership.Owns machine.lock fun cpu lock => lock ∈ machine.held cpu
  current : ∀ {slot}, machine.Executes slot →
    (machine.procs slot).state = (machine.thread slot).current
  suspended : ∀ {slot}, ¬machine.Executes slot →
    (machine.thread slot).Suspended slot (machine.procs slot)
  asserts : ∀ slot, (machine.thread slot).point.Asserts slot machine.procs
  child_unique : ∀ {first second child}, (machine.thread first).point.child = some child →
    (machine.thread second).point.child = some child → first = second
  clean : LifeEvent.Clean machine.procs

namespace Coherent

variable {machine : Machine Cpu} {cpu : Cpu} {self : Slot} {resume : Resume}

theorem held_running (runs : machine.sched cpu = .running self resume) :
    machine.held cpu = (machine.thread self).locks self := by
  rw [held, runs]
  rfl

theorem not_running_of_idle (idle : (machine.sched cpu).proc = none) :
    machine.sched cpu ≠ .running slot resume := by
  intro runs
  rw [runs] at idle
  cases idle

theorem executes_of_free (coherent : machine.Coherent) (free : machine.lock (.proc slot) = none)
    (assigned : (machine.sched cpu).proc = some slot) :
    machine.Executes slot ∧ (machine.procs slot).state = .running := by
  have unheld := coherent.owns.not_held free cpu
  cases point : machine.sched cpu with
  | running self resume =>
    rw [point] at assigned
    cases assigned
    have executes : machine.Executes slot := ⟨cpu, resume, point⟩
    refine ⟨executes, ?_⟩
    rcases (machine.thread slot).current_cases with running | ⟨_, buried⟩
    · exact (coherent.current executes).trans running
    · rw [held_running point, buried] at unheld
      exact absurd (.tail _ (.head _)) unheld
  | back self resume =>
    rw [point] at assigned
    cases assigned
    rw [held, point] at unheld
    exact absurd (.head _) unheld
  | _ =>
    rw [point] at assigned
    cases assigned

theorem wakeup_coherent (coherent : machine.Coherent) (slot : Slot) (chan : Option Chan) :
    { machine with
      procs := (LifeEvent.wakeup slot chan).apply machine.procs }.Coherent := by
  have legal : (LifeEvent.wakeup slot chan).Legal machine.procs := trivial
  exact {
    proc_eq := coherent.proc_eq
    single := coherent.single
    owns := coherent.owns
    current := by
      intro other executes
      have current := coherent.current executes
      refine (LifeEvent.wakeup_apply_state ?_).trans current
      rw [current]
      rcases (machine.thread other).current_cases with running | ⟨zombie, _⟩
      · rw [running]
        nofun
      · rw [zombie]
        nofun
    suspended := fun idle => (coherent.suspended idle).stable legal nofun nofun
    asserts := fun other => (coherent.asserts other).stable legal nofun nofun
    child_unique := coherent.child_unique
    clean := LifeEvent.clean_apply coherent.clean legal }

section Chosen

variable (coherent : machine.Coherent)
  (chosen : Chooses machine.procs (machine.sched cpu) self resume)

include coherent chosen

theorem unassigned (free : machine.lock (.proc self) = none) (other : Cpu) :
    (machine.sched other).proc ≠ some self := by
  intro assigned
  obtain ⟨_, running⟩ := coherent.executes_of_free free assigned
  cases chosen.runnable.symm.trans running

theorem resumable : (machine.thread self).Resumable := by
  have idle : ¬machine.Executes self := by
    intro executes
    have state := chosen.runnable.symm.trans (coherent.current executes)
    rcases (machine.thread self).current_cases with running | ⟨zombie, _⟩
    · cases state.trans running
    · cases state.trans zombie
  have suspended := coherent.suspended idle
  unfold Thread.Suspended at suspended
  rw [chosen.runnable] at suspended
  exact suspended

end Chosen

section Thread

variable {move : Move} {next : Thread} (coherent : machine.Coherent)
  (runs : machine.sched cpu = .running self resume)
  (taken : ThreadStep self machine.procs machine.nextpid (machine.thread self) move next)

include coherent runs taken

theorem thread_legal : move.event.Legal machine.procs :=
  taken.legal (coherent.current ⟨cpu, resume, runs⟩) (coherent.asserts self)

theorem not_executes_of_alloc (allocates : move.event = .alloc parent slot pid) :
    ¬machine.Executes slot := by
  intro executes
  have legal := thread_legal coherent runs taken
  rw [allocates] at legal
  have state := legal.2.symm.trans (coherent.current executes)
  rcases (machine.thread slot).current_cases with running | ⟨zombie, _⟩
  · cases state.trans running
  · cases state.trans zombie

theorem not_executes_of_reap (reaps : move.event = .reap parent slot pid status) :
    ¬machine.Executes slot := by
  rintro ⟨other, otherResume, executes⟩
  have legal := thread_legal coherent runs taken
  rw [reaps] at legal
  have state := legal.1.symm.trans (coherent.current ⟨other, otherResume, executes⟩)
  have reaping := taken.reap_before reaps
  rcases (machine.thread slot).current_cases with running | ⟨_, buried⟩
  · cases state.trans running
  · have mine : Lock.proc slot ∈ machine.held cpu := by
      rw [held_running runs, reaping]
      exact .tail _ (.head _)
    have theirs : Lock.proc slot ∈ machine.held other := by
      rw [held_running executes, buried]
      exact .tail _ (.head _)
    have same : cpu = other := coherent.owns.exclusive mine theirs
    rw [← same, runs] at executes
    cases executes
    cases buried.symm.trans reaping

theorem state_of_executes (differs : slot ≠ self) (executes : machine.Executes slot) :
    (move.event.apply machine.procs slot).state = (machine.procs slot).state := by
  have legal := thread_legal coherent runs taken
  rcases LifeEvent.edge_apply legal slot with same | edge
  · exact same
  · have notLeaves := taken.not_leaves differs
    rw [coherent.current executes] at edge ⊢
    rcases (machine.thread slot).current_cases with running | ⟨zombie, _⟩
    · rw [running] at edge
      generalize (move.event.apply machine.procs slot).state = after at edge
      generalize move.event = event at edge notLeaves
      cases edge <;> exact absurd rfl notLeaves
    · rw [zombie] at edge
      generalize (move.event.apply machine.procs slot).state = after at edge
      generalize reaped : move.event = event at edge
      cases edge with
      | reap =>
        exact absurd executes (not_executes_of_reap coherent runs taken reaped)

variable [DecidableEq Cpu]

theorem perform_executes_iff (slot : Slot) :
    (machine.perform cpu self resume move next).Executes slot ↔ machine.Executes slot ∧
      (slot = self → move.switches = false) := by
  constructor
  · rintro ⟨other, otherResume, executes⟩
    by_cases same : other = cpu
    · subst same
      cases switches : move.switches with
      | true =>
        rw [perform_sched_switches switches] at executes
        cases executes
      | false =>
        rw [perform_sched_stays switches] at executes
        exact ⟨⟨_, _, executes⟩, fun _ => rfl⟩
    · rw [perform_sched_other same] at executes
      refine ⟨⟨_, _, executes⟩, ?_⟩
      rintro rfl
      have again := coherent.single (by rw [executes]; rfl) (by rw [runs]; rfl)
      exact absurd again same
  · rintro ⟨⟨other, otherResume, executes⟩, stays⟩
    by_cases same : other = cpu
    · subst same
      rw [runs] at executes
      cases executes
      refine ⟨other, resume, ?_⟩
      rw [perform_sched_stays (stays rfl), runs]
    · refine ⟨other, otherResume, ?_⟩
      rw [perform_sched_other same, executes]

omit coherent taken in
theorem perform_proc (other : Cpu) :
    ((machine.perform cpu self resume move next).sched other).proc =
      (machine.sched other).proc := by
  by_cases same : other = cpu
  · subst same
    cases switches : move.switches with
    | true =>
      rw [perform_sched_switches switches, runs]
      rfl
    | false => rw [perform_sched_stays switches]
  · rw [perform_sched_other same]

theorem perform_thread_eq (differs : slot ≠ self) (executes : machine.Executes slot) :
    (machine.perform cpu self resume move next).thread slot = machine.thread slot :=
  perform_thread_other differs fun _ _ allocates =>
    not_executes_of_alloc coherent runs taken allocates executes

theorem perform_held_other (differs : other ≠ cpu) :
    (machine.perform cpu self resume move next).held other = machine.held other := by
  unfold held
  rw [perform_sched_other differs]
  cases point : machine.sched other with
  | running slot otherResume =>
    have elsewhere : slot ≠ self := by
      rintro rfl
      exact differs (coherent.single (by rw [point]; rfl)
        (by rw [runs]; rfl))
    exact congrArg (Thread.locks slot)
      (perform_thread_eq coherent runs taken elsewhere ⟨_, _, point⟩)
  | _ => rfl

omit coherent taken in
theorem perform_held_self :
    (machine.perform cpu self resume move next).held cpu = ThreadStep.heldAfter self move next := by
  unfold held ThreadStep.heldAfter
  cases switches : move.switches with
  | true => rw [perform_sched_switches switches]; rfl
  | false =>
    rw [perform_sched_stays switches, runs]
    exact congrArg (Thread.locks self) perform_thread_self

theorem perform_owns (free : ∀ lock ∈ move.acquires, machine.lock lock = none) :
    Ownership.Owns (machine.perform cpu self resume move next).lock fun holder lock => lock ∈
      (machine.perform cpu self resume move next).held holder := by
  have before : machine.held cpu = (machine.thread self).locks self :=
    held_running runs
  refine coherent.owns.transfer cpu (· ∈ move.releases)
    (move.acquires = some ·) ?_ ?_ free ?_ ?_ ?_ ?_
  · intro other differs lock
    rw [perform_held_other coherent runs taken differs]
  · intro lock
    rw [perform_held_self runs, taken.mem_heldAfter, before]
  · intro lock released
    rw [before]
    exact taken.mem_locks_of_mem_releases released
  · intro lock released
    exact if_pos released
  · intro lock acquired
    have kept : lock ∉ move.releases := fun released =>
      coherent.owns.not_held (free lock acquired) cpu
        (before ▸ taken.mem_locks_of_mem_releases released)
    exact (if_neg kept).trans (if_pos acquired)
  · intro lock kept unacquired
    exact (if_neg kept).trans (if_neg unacquired)

theorem perform_current (executes : (machine.perform cpu self resume move next).Executes slot) :
    (move.event.apply machine.procs slot).state =
      ((machine.perform cpu self resume move next).thread slot).current := by
  obtain ⟨before, stays⟩ :=
    (perform_executes_iff coherent runs taken slot).mp executes
  by_cases same : slot = self
  · subst same
    rw [perform_thread_self]
    exact taken.state_after (coherent.current before) (coherent.asserts slot) (stays rfl)
  · rw [perform_thread_eq coherent runs taken same before,
      state_of_executes coherent runs taken same before]
    exact coherent.current before

theorem perform_suspended (idle : ¬(machine.perform cpu self resume move next).Executes slot) :
    ((machine.perform cpu self resume move next).thread slot).Suspended slot
      (move.event.apply machine.procs slot) := by
  rw [perform_executes_iff coherent runs taken slot] at idle
  by_cases same : slot = self
  · subst same
    rw [perform_thread_self]
    have executes : machine.Executes slot := ⟨cpu, resume, runs⟩
    refine taken.suspended_after (coherent.current executes) ?_
    cases switches : move.switches with
    | true => rfl
    | false => exact absurd ⟨executes, fun _ => switches⟩ idle
  · have notExecutes : ¬machine.Executes slot := fun executes =>
      idle ⟨executes, fun again => absurd again same⟩
    by_cases allocated : ∃ parent pid, move.event = .alloc parent slot pid
    · obtain ⟨parent, pid, allocates⟩ := allocated
      rw [perform_thread_allocated same allocates, allocates,
        LifeEvent.apply_target machine.procs rfl]
      rfl
    · have spared : ∀ parent pid, move.event ≠ .alloc parent slot pid :=
        fun parent pid allocates => allocated ⟨parent, pid, allocates⟩
      rw [perform_thread_other same spared]
      exact (coherent.suspended notExecutes).stable
        (thread_legal coherent runs taken) (fun _ => taken.not_dispatch) spared

theorem perform_asserts (slot : Slot) :
    ((machine.perform cpu self resume move next).thread slot).point.Asserts slot
      (move.event.apply machine.procs) := by
  have legal := thread_legal coherent runs taken
  by_cases same : slot = self
  · subst same
    rw [perform_thread_self]
    exact taken.asserts_after (coherent.current ⟨cpu, resume, runs⟩)
      (coherent.asserts slot) coherent.clean
  · by_cases allocated : ∃ parent pid, move.event = .alloc parent slot pid
    · obtain ⟨parent, pid, allocates⟩ := allocated
      rw [perform_thread_allocated same allocates]
      trivial
    · rw [perform_thread_other same fun parent pid allocates => allocated ⟨parent, pid, allocates⟩]
      refine (coherent.asserts slot).stable legal (taken.not_actor same) ?_
      intro child building built
      exact same (coherent.child_unique building (taken.builds_child built))

theorem perform_child (building : ((machine.perform cpu self resume move next).thread
      slot).point.child = some child) :
    (machine.thread slot).point.child = some child ∨ slot = self ∧ (machine.procs child).state =
      .unused := by
  have legal := thread_legal coherent runs taken
  by_cases same : slot = self
  · subst same
    rw [perform_thread_self] at building
    rcases taken.child_after building with before | ⟨pid, allocates⟩
    · exact .inl before
    · rw [allocates] at legal
      exact .inr ⟨rfl, legal.2⟩
  · by_cases allocated : ∃ parent pid, move.event = .alloc parent slot pid
    · obtain ⟨parent, pid, allocates⟩ := allocated
      rw [perform_thread_allocated same allocates] at building
      cases building
    · rw [perform_thread_other same fun parent pid allocates => allocated ⟨parent, pid, allocates⟩]
        at building
      exact .inl building

theorem perform_coherent (free : ∀ lock ∈ move.acquires, machine.lock lock = none) :
    (machine.perform cpu self resume move next).Coherent where
  proc_eq other := by
    rw [perform_proc runs]
    exact coherent.proc_eq other
  single first second := by
    rw [perform_proc runs] at first second
    exact coherent.single first second
  owns := perform_owns coherent runs taken free
  current := perform_current coherent runs taken
  suspended := perform_suspended coherent runs taken
  asserts := perform_asserts coherent runs taken
  child_unique := by
    intro first second child firstBuilds secondBuilds
    have used : ∀ {slot}, (machine.thread slot).point.child = some child →
        (machine.procs child).state ≠ .unused := by
      intro slot building unused
      cases unused.symm.trans ((coherent.asserts slot).child_used building)
    rcases perform_child coherent runs taken firstBuilds with
      firstOld | ⟨rfl, firstUnused⟩
    · rcases perform_child coherent runs taken secondBuilds with
        secondOld | ⟨_, unused⟩
      · exact coherent.child_unique firstOld secondOld
      · exact absurd unused (used firstOld)
    · rcases perform_child coherent runs taken secondBuilds with
        secondOld | ⟨again, _⟩
      · exact absurd firstUnused (used secondOld)
      · exact again.symm
  clean := LifeEvent.clean_apply coherent.clean (thread_legal coherent runs taken)

end Thread

/-! The steps of scheduler(), which run on no process's thread. -/

section Scheduler

variable [DecidableEq Cpu] (coherent : machine.Coherent)

omit coherent in
theorem executes_update (idle : ∀ slot resume, machine.sched cpu ≠ .running slot resume)
    (slot : Slot) :
    (∃ other resume, update machine.sched cpu point other = .running slot resume) ↔
      (∃ resume, point = .running slot resume) ∨ machine.Executes slot := by
  constructor
  · rintro ⟨other, resume, executes⟩
    by_cases same : other = cpu
    · rw [same, update_self] at executes
      exact .inl ⟨resume, executes⟩
    · rw [update_of_ne same] at executes
      exact .inr ⟨other, resume, executes⟩
  · rintro (⟨resume, rfl⟩ | ⟨other, resume, executes⟩)
    · exact ⟨cpu, resume, update_self ..⟩
    · have differs : other ≠ cpu := by
        rintro rfl
        exact idle slot resume executes
      exact ⟨other, resume, (update_of_ne differs ..).trans executes⟩

omit coherent in
theorem executes_update_idle (before : ∀ slot resume, machine.sched cpu ≠ .running slot resume)
    (after : point.proc = none) (slot : Slot) :
    (∃ other resume, update machine.sched cpu point other = .running slot resume) ↔
      machine.Executes slot := by
  refine (executes_update before slot).trans ⟨?_, .inr⟩
  rintro (⟨resume, rfl⟩ | executes)
  · cases after
  · exact executes

include coherent

theorem single_update
    (fresh : ∀ {slot}, point.proc = some slot → ∀ other, (machine.sched other).proc ≠ some slot)
    (firstProc : (update machine.sched cpu point first).proc = some slot)
    (secondProc : (update machine.sched cpu point second).proc = some slot) : first = second := by
  by_cases firstSame : first = cpu
  · by_cases secondSame : second = cpu
    · rw [firstSame, secondSame]
    · rw [firstSame, update_self] at firstProc
      rw [update_of_ne secondSame] at secondProc
      exact absurd secondProc (fresh firstProc second)
  · rw [update_of_ne firstSame] at firstProc
    by_cases secondSame : second = cpu
    · rw [secondSame, update_self] at secondProc
      exact absurd firstProc (fresh secondProc first)
    · rw [update_of_ne secondSame] at secondProc
      exact coherent.single firstProc secondProc

theorem advance_coherent (before : (machine.sched cpu).proc = none) (after : point.proc = none) :
    (machine.advance cpu point stored).Coherent where
  proc_eq other := by
    unfold advance
    dsimp only
    by_cases same : other = cpu
    · rw [same, update_self, coherent.proc_eq, before, after]
    · rw [update_of_ne same, coherent.proc_eq]
  single := single_update coherent (by rw [after]; nofun)
  owns := by
    refine coherent.owns.congr fun other lock => ?_
    unfold held advance
    dsimp only
    by_cases same : other = cpu
    · rw [same, update_self, SchedPoint.locks_idle after, SchedPoint.locks_idle before]
    · rw [update_of_ne same]
  current executes := coherent.current
    ((executes_update_idle (fun _ _ => not_running_of_idle before) after _).mp executes)
  suspended idle := coherent.suspended fun executes => idle
    ((executes_update_idle (fun _ _ => not_running_of_idle before) after _).mpr executes)
  asserts := coherent.asserts
  child_unique := coherent.child_unique
  clean := coherent.clean

theorem finish_coherent (parked : machine.sched cpu = .back self resume) :
    (machine.finish cpu self resume).Coherent where
  proc_eq other := by
    unfold finish
    by_cases same : other = cpu
    · dsimp only
      rw [same, update_self, update_self, resume.proc_next]
    · dsimp only
      rw [update_of_ne same, update_of_ne same, coherent.proc_eq]
  single := single_update coherent (by rw [resume.proc_next]; nofun)
  owns := by
    refine coherent.owns.transfer cpu (· = .proc self) (fun _ => False) ?_ ?_ nofun ?_ ?_ nofun ?_
    · intro other differs lock
      unfold held finish
      dsimp only
      rw [update_of_ne differs]
    · intro lock
      unfold held finish
      dsimp only
      rw [update_self, SchedPoint.locks_idle resume.proc_next, parked]
      simp [SchedPoint.locks]
    · rintro lock rfl
      unfold held
      rw [parked]
      exact .head _
    · rintro lock rfl
      exact update_self ..
    · intro lock kept _
      exact update_of_ne kept ..
  current executes := coherent.current
    ((executes_update_idle (by rw [parked]; nofun) resume.proc_next
      _).mp executes)
  suspended idle := coherent.suspended fun executes => idle
    ((executes_update_idle (by rw [parked]; nofun) resume.proc_next
      _).mpr executes)
  asserts := coherent.asserts
  child_unique := coherent.child_unique
  clean := coherent.clean

section Dispatch

variable (chosen : Chooses machine.procs (machine.sched cpu) self resume)

include chosen

omit coherent in
theorem dispatch_executes_iff (slot : Slot) :
    (machine.dispatch cpu self resume).Executes slot ↔ slot = self ∨ machine.Executes slot := by
  refine (executes_update (fun _ _ =>
    not_running_of_idle chosen.idle) slot).trans ?_
  constructor
  · rintro (⟨_, same⟩ | executes)
    · cases same
      exact .inl rfl
    · exact .inr executes
  · rintro (rfl | executes)
    · exact .inl ⟨resume, rfl⟩
    · exact .inr executes

theorem dispatch_owns (free : machine.lock (.proc self) = none) :
    Ownership.Owns (machine.dispatch cpu self resume).lock fun holder lock => lock ∈
      (machine.dispatch cpu self resume).held holder := by
  refine coherent.owns.transfer cpu (fun _ => False) (· = .proc self) ?_ ?_ ?_ nofun nofun ?_ ?_
  · intro other differs lock
    unfold held dispatch
    dsimp only
    rw [update_of_ne differs]
  · intro lock
    unfold held dispatch
    dsimp only
    rw [update_self, SchedPoint.locks_idle chosen.idle]
    simp [SchedPoint.locks, (coherent.resumable chosen).locks_eq]
  · rintro lock rfl
    exact free
  · rintro lock rfl
    exact update_self ..
  · intro lock _ other
    exact update_of_ne other ..

omit coherent chosen in
theorem dispatch_procs_other (differs : slot ≠ self) :
    (machine.dispatch cpu self resume).procs slot = machine.procs slot := by
  refine LifeEvent.apply_other machine.procs ?_
  intro same
  exact differs (Option.some.inj same).symm

theorem dispatch_current (executes : (machine.dispatch cpu self resume).Executes slot) :
    ((machine.dispatch cpu self resume).procs slot).state = (machine.thread slot).current := by
  by_cases same : slot = self
  · rw [same, (coherent.resumable chosen).current_eq]
    exact congrArg Proc.state (LifeEvent.apply_target machine.procs rfl)
  · rw [dispatch_procs_other same]
    rcases (dispatch_executes_iff chosen slot).mp executes with
      again | before
    · exact absurd again same
    · exact coherent.current before

theorem dispatch_suspended (idle : ¬(machine.dispatch cpu self resume).Executes slot) :
    (machine.thread slot).Suspended slot ((machine.dispatch cpu self resume).procs slot) := by
  rw [dispatch_executes_iff chosen slot, not_or] at idle
  rw [dispatch_procs_other idle.1]
  exact coherent.suspended idle.2

theorem dispatch_coherent (free : machine.lock (.proc self) = none) :
    (machine.dispatch cpu self resume).Coherent := by
  have legal : (LifeEvent.dispatch self resume.isLottery).Legal machine.procs := chosen.runnable
  exact {
    proc_eq := by
      intro other
      unfold dispatch
      dsimp only
      by_cases same : other = cpu
      · rw [same, update_self, update_self]
        rfl
      · rw [update_of_ne same, update_of_ne same, coherent.proc_eq]
    single := by
      refine single_update coherent ?_
      intro slot assigned
      cases assigned
      exact coherent.unassigned chosen free
    owns := coherent.dispatch_owns chosen free
    current := coherent.dispatch_current chosen
    suspended := coherent.dispatch_suspended chosen
    asserts := fun slot => (coherent.asserts slot).stable legal nofun nofun
    child_unique := coherent.child_unique
    clean := LifeEvent.clean_apply coherent.clean legal }

end Dispatch

end Scheduler

theorem boot_coherent : (boot : Machine Cpu).Coherent where
  proc_eq _ := rfl
  single := nofun
  owns _ _ := ⟨nofun, nofun⟩
  current := by
    rintro slot ⟨cpu, resume, runs⟩
    cases runs
  suspended := by
    intro slot _
    unfold boot ProcTable.userinit
    dsimp only
    split
    · exact .inr (.inl rfl)
    · trivial
  asserts := by
    intro slot
    unfold boot
    dsimp only
    split
    · trivial
    · next other =>
        refine ⟨other, fun child => ?_⟩
        rw [ProcTable.userinit_parent]
        nofun
  child_unique := by
    intro first second child building
    unfold boot at building
    dsimp only at building
    split at building <;> cases building
  clean slot _ := ProcTable.userinit_parent slot

end Coherent

/-! Every step runs a legal section of the life cycle and keeps the
invariant. -/

variable [DecidableEq Cpu] {machine next : Machine Cpu}

theorem Step.legal (coherent : machine.Coherent) (taken : Step machine (cpu, event) next) :
    event.Legal machine.procs ∧ next.procs = event.apply machine.procs := by
  cases taken with
  | schedule moved =>
    rcases moved.event_eq with rfl | rfl <;> exact ⟨trivial, rfl⟩
  | dispatch chosen => exact ⟨chosen.runnable, rfl⟩
  | finish => exact ⟨trivial, rfl⟩
  | thread runs moved => exact ⟨coherent.thread_legal runs moved, rfl⟩
  | wakeup => exact ⟨trivial, rfl⟩

theorem Step.coherent (coherent : machine.Coherent)
    (taken : Step machine label next) : next.Coherent := by
  cases taken with
  | schedule moved => exact coherent.advance_coherent moved.idle.1 moved.idle.2
  | dispatch chosen free => exact coherent.dispatch_coherent chosen free
  | finish parked => exact coherent.finish_coherent parked
  | thread runs moved _ free => exact coherent.perform_coherent runs moved free
  | wakeup => exact coherent.wakeup_coherent _ _

theorem run_coherent (run : Transition.Run (@Step Cpu _) boot labels machine) : machine.Coherent :=
  run.invariant Coherent Coherent.boot_coherent fun coherent taken => taken.coherent coherent

end Machine

end Xv6Lottery
