import Xv6Lottery.Proc.Parent

namespace Xv6Lottery

/-! The rendezvous of exit() and wait(). A wait() that has passed a child over
does not look at it again before it is woken; exit() must wake it when the
child becomes a ZOMBIE. -/

def Point.Passed (child : Slot) : Point → Prop
  | .scan remaining _ => child ∉ remaining
  | .scanned _ | .waitSleep | .dozing .wait | .asleep .wait => True
  | _ => False

theorem Point.Passed.not_preemptible {point : Point} {child : Slot}
    (passed : point.Passed child) : point.preemptible ≠ true := by
  cases point with
  | scan | scanned | waitSleep | dozing | asleep => nofun
  | _ => exact passed.elim

/-- The thread has passed the child over and nothing has woken it since. -/
def Thread.Overlooks (child : Slot) (process : Proc) (thread : Thread) :
    Prop :=
  thread.point.Passed child ∧ (thread.point = .asleep .wait → process.state = .sleeping)

theorem LifeEvent.sleeping_before {event : LifeEvent} (legal : event.Legal table)
    (stays : event.leaves ≠ some slot) (asleep : (event.apply table slot).state = .sleeping) :
    (table slot).state = .sleeping := by
  rcases edge_apply legal slot with same | edge
  · exact same.symm.trans asleep
  · rw [asleep] at edge
    generalize (table slot).state = before at edge ⊢
    cases edge
    exact absurd rfl stays

theorem LifeEvent.zombie_before {event : LifeEvent} (legal : event.Legal table)
    (stays : event.leaves ≠ some slot) (zombie : (event.apply table slot).state = .zombie) :
    (table slot).state = .zombie := by
  rcases edge_apply legal slot with same | edge
  · exact same.symm.trans zombie
  · rw [zombie] at edge
    generalize (table slot).state = before at edge ⊢
    cases edge
    exact absurd rfl stays

theorem LifeEvent.parent_kept {event : LifeEvent} (table : ProcTable) (slot : Slot)
    (notActor : event.actor = none) (notBuilt : event.builds = none) :
    (event.apply table slot).parent = (table slot).parent := by
  by_cases targets : event.target = some slot
  · rw [apply_target table targets]
    cases event with
    | adopt | reparent | reap => cases notActor
    | abandon => cases notBuilt
    | _ => rfl
  · rw [apply_other table targets]

theorem Thread.Overlooks.before {thread : Thread} {event : LifeEvent} (legal : event.Legal table)
    (stays : event.leaves ≠ some slot)
    (overlooks : thread.Overlooks child (event.apply table slot)) :
    thread.Overlooks child (table slot) :=
  ⟨overlooks.1, fun asleep =>
    LifeEvent.sleeping_before legal stays (overlooks.2 asleep)⟩

namespace ThreadStep

variable {self : Slot} {table : ProcTable} {nextpid : BitVec 32}
  {before after : Thread} {move : Move}

section

variable (taken : ThreadStep self table nextpid before move after)

include taken

/-- A thread overlooks a child only under wait_lock, and only one that is no
ZOMBIE of its own. -/
theorem overlooks_after
    (overlooks : after.Overlooks child (move.event.apply table self)) :
    before.Overlooks child (table self) ∨ Lock.wait ∈ before.locks self ∧
      ((table child).parent = some self → (table child).state ≠ .zombie) := by
  cases taken with
  | yield free | yielded free =>
    exact absurd free overlooks.1.not_preemptible
  | call called => cases called <;> exact overlooks.1.elim
  | waitSleep => exact .inl ⟨trivial, nofun⟩
  | @doze site =>
    cases site with
    | wait => exact .inl ⟨trivial, nofun⟩
    | kernel => exact overlooks.1.elim
  | @awake site => cases site <;> exact overlooks.1.elim
  | waitLock => exact absurd (mem_slots child) overlooks.1
  | @scanSkip slot remaining havekids foreign =>
    by_cases same : child = slot
    · refine .inr ⟨.head _, fun parent => ?_⟩
      rw [same] at parent
      exact absurd parent foreign
    · exact .inl ⟨List.not_mem_cons_of_ne_of_not_mem same overlooks.1, nofun⟩
  | @scanAlive slot remaining havekids _ alive =>
    by_cases same : child = slot
    · refine .inr ⟨.head _, fun _ => ?_⟩
      rw [same]
      exact alive
    · exact .inl ⟨List.not_mem_cons_of_ne_of_not_mem same overlooks.1, nofun⟩
  | scanEnd => exact .inl ⟨List.not_mem_nil, nofun⟩
  | waitStays => exact .inl ⟨trivial, nofun⟩
  | _ => exact overlooks.1.elim

theorem exit_before
    (exits : move.event = .exit slot pid status) :
    slot = self ∧ before.point = .zombify status := by
  cases taken with
  | zombify =>
    cases exits
    exact ⟨rfl, rfl⟩
  | _ => cases exits

theorem reparent_locked
    (moves : move.event = .reparent parent slot) : Lock.wait ∈ before.locks self := by
  cases taken with
  | reparentHit => exact .head _
  | _ => cases moves

theorem reparent_after
    (moves : move.event = .reparent parent slot) :
    move.switches = false ∧ ∃ status remaining, after.point =
      .waking status (some (.proc initproc)) slots (some remaining) := by
  cases taken with
  | @reparentHit slot status remaining => exact ⟨rfl, status, remaining, rfl⟩
  | _ => cases moves

end

end ThreadStep

namespace Machine

variable {Cpu : Type}

def Overlooks (machine : Machine Cpu) (parent child : Slot) : Prop :=
  (machine.thread parent).Overlooks child (machine.procs parent)

/-- What an exiting process has done about its parent at this point. -/
def Alerted (machine : Machine Cpu) (slot : Slot) : Point → Prop
  | .waking _ chan sleepers none =>
    chan = (machine.procs slot).parent.map .proc ∧
      ∀ parent, (machine.procs slot).parent = some parent →
        parent ∉ sleepers → ¬machine.Overlooks parent slot
  | .zombify _ =>
    ∀ parent, (machine.procs slot).parent = some parent → ¬machine.Overlooks parent slot
  | _ => True

def WakesInit (machine : Machine Cpu) : Prop :=
  ∃ slot status sleepers remaining, machine.Executes slot ∧ (machine.thread slot).point =
      .waking status (some (.proc initproc)) sleepers (some remaining) ∧ initproc ∈ sleepers

structure Rendezvous (machine : Machine Cpu) : Prop where
  alerted : ∀ {slot}, machine.Executes slot → machine.Alerted slot (machine.thread slot).point
  zombies : ∀ {parent child}, (machine.procs child).parent = some parent →
    (machine.procs child).state = .zombie → machine.Overlooks parent child →
    parent = initproc ∧ machine.WakesInit

theorem Alerted.mono {machine next : Machine Cpu} (alerted : machine.Alerted slot point)
    (parent : (next.procs slot).parent = (machine.procs slot).parent)
    (overlooks : ∀ parent, (machine.procs slot).parent = some parent → next.Overlooks parent slot →
      machine.Overlooks parent slot) : next.Alerted slot point := by
  cases point with
  | waking status chan sleepers remaining =>
    cases remaining with
    | none =>
      refine ⟨parent ▸ alerted.1, fun other points outside later => ?_⟩
      rw [parent] at points
      exact alerted.2 other points outside (overlooks other points later)
    | some => trivial
  | zombify status =>
    intro other points later
    rw [parent] at points
    exact alerted other points (overlooks other points later)
  | _ => trivial

theorem Alerted.of_preemptible {machine : Machine Cpu} (free : point.preemptible = true) :
    machine.Alerted slot point := by
  cases point with
  | waking | zombify => cases free
  | _ => trivial

theorem Alerted.of_resumable {machine : Machine Cpu} {thread : Thread}
    (resumable : thread.Resumable) : machine.Alerted slot thread.point := by
  rcases resumable with yielded | rfl | ⟨site, rfl⟩
  · exact Alerted.of_preemptible (thread.preempted yielded)
  · trivial
  · trivial

theorem Alerted.of_unlocked {machine : Machine Cpu} {thread : Thread}
    (unlocked : Lock.wait ∉ thread.locks slot) : machine.Alerted slot thread.point := by
  obtain ⟨point, yielded, preempted⟩ := thread
  cases yielded with
  | true => exact Alerted.of_preemptible (preempted rfl)
  | false =>
    cases point with
    | waking | zombify => exact absurd (.head _) unlocked
    | _ => trivial

namespace Coherent

variable {machine : Machine Cpu} {cpu : Cpu} {self : Slot} {resume : Resume}

theorem overlooks_cases (coherent : machine.Coherent) (alive : (machine.procs slot).state.Alive)
    (overlooks : machine.Overlooks slot child) :
    (∃ cpu resume, machine.sched cpu = .running slot resume ∧
        (Lock.wait ∈ machine.held cpu ∨ Lock.proc slot ∈ machine.held cpu)) ∨
      (machine.thread slot).point = .asleep .wait ∧ (machine.procs slot).state = .sleeping ∧
      (machine.procs slot).chan = some (.proc slot) := by
  obtain ⟨passed, sleeping⟩ := overlooks
  by_cases executes : machine.Executes slot
  · left
    have state := coherent.current executes
    obtain ⟨cpu, resume, runs⟩ := executes
    refine ⟨cpu, resume, runs, ?_⟩
    have awake : (machine.thread slot).yielded = false := by
      by_contra yielded
      exact passed.not_preemptible ((machine.thread slot).preempted (by simpa using yielded))
    rw [held_running runs, Thread.locks, if_neg (by rw [awake]; rintro ⟨⟩)]
    unfold Thread.current at state
    generalize (machine.thread slot).point = point at passed sleeping state ⊢
    cases point with
    | scan | scanned | waitSleep => exact .inl (.head _)
    | dozing => exact .inr (.head _)
    | asleep site =>
      cases site with
      | wait => cases (sleeping rfl).symm.trans state
      | kernel => exact passed.elim
    | _ => exact passed.elim
  · right
    have suspended := coherent.suspended executes
    unfold Thread.Suspended at suspended
    cases state : (machine.procs slot).state with
    | unused | used | zombie =>
      rw [state] at alive
      exact alive.elim
    | running =>
      rw [state] at suspended
      exact suspended.elim
    | runnable =>
      rw [state] at suspended sleeping
      rcases suspended with yielded | forked | ⟨site, waits⟩
      · exact absurd ((machine.thread slot).preempted yielded) passed.not_preemptible
      · rw [forked] at passed
        exact passed.elim
      · rw [waits] at passed sleeping
        cases site with
        | wait => cases sleeping rfl
        | kernel => exact passed.elim
    | sleeping =>
      rw [state] at suspended
      obtain ⟨site, waits, chan⟩ := suspended
      rw [waits] at passed ⊢
      cases site with
      | wait => exact ⟨rfl, rfl, chan⟩
      | kernel => exact passed.elim

section Thread

variable {move : Move} {next : Thread} (coherent : machine.Coherent)
  (runs : machine.sched cpu = .running self resume)
  (taken : ThreadStep self machine.procs machine.nextpid (machine.thread self) move next)

include coherent runs

theorem wait_exclusive (locked : Lock.wait ∈ (machine.thread self).locks self)
    (executes : machine.Executes slot) (holds : Lock.wait ∈ (machine.thread slot).locks slot) :
    slot = self := by
  obtain ⟨other, otherResume, theirs⟩ := executes
  rw [← held_running runs] at locked
  rw [← held_running theirs] at holds
  obtain rfl : cpu = other := coherent.owns.exclusive locked holds
  cases runs.symm.trans theirs
  rfl

theorem not_overlooks_woken [DecidableEq Cpu]
    (locked : Lock.wait ∈ (machine.thread self).locks self)
    (differs : slot ≠ self) (alive : (machine.procs slot).state.Alive)
    (free : machine.lock (.proc slot) = none) (next : Thread) : ¬(machine.perform cpu self resume
      { event := .wakeup slot (some (.proc slot))
        passes := some (.proc slot) } next).Overlooks slot child := by
  intro overlooks
  have unmoved := @perform_thread_other _ _ machine cpu self slot resume
    { event := .wakeup slot (some (.proc slot))
      passes := some (.proc slot) } next differs nofun
  unfold Machine.Overlooks at overlooks
  rw [unmoved] at overlooks
  have legal : (LifeEvent.wakeup slot (some (.proc slot))).Legal machine.procs := trivial
  rcases coherent.overlooks_cases alive (overlooks.before legal nofun) with
    ⟨other, otherResume, theirs, holds | holds⟩ | ⟨asleep, state, chan⟩
  · rw [held_running theirs] at holds
    exact differs (wait_exclusive coherent runs locked ⟨other, otherResume, theirs⟩ holds)
  · exact coherent.owns.not_held free other holds
  · have sleeping := overlooks.2 asleep
    cases sleeping.symm.trans
      ((congrArg Proc.state (LifeEvent.apply_target machine.procs rfl)).trans
        (if_pos ⟨state, chan⟩))

include taken

theorem parent_of_executes (differs : slot ≠ self) (executes : machine.Executes slot)
    (locked : Lock.wait ∈ (machine.thread slot).locks slot) :
    (move.event.apply machine.procs slot).parent = (machine.procs slot).parent := by
  have legal := thread_legal coherent runs taken
  have state := state_of_executes coherent runs taken differs executes
  have inUse : (machine.procs slot).state = .running ∨ (machine.procs slot).state = .zombie := by
    rw [coherent.current executes]
    exact (machine.thread slot).current_cases.imp_right And.left
  rcases move.event.parent_apply machine.procs slot with
    same | ⟨adopter, adopts, _⟩ | ⟨parent, moves, _⟩ | ⟨_, freed⟩
  · exact same
  · rw [adopts] at legal
    rcases inUse with running | zombie
    · cases legal.2.1.symm.trans running
    · cases legal.2.1.symm.trans zombie
  · exact absurd (wait_exclusive coherent runs (taken.reparent_locked moves)
      executes locked) differs
  · rcases inUse with running | zombie
    · cases (freed.symm.trans state).trans running
    · cases (freed.symm.trans state).trans zombie

variable [DecidableEq Cpu]

theorem overlooks_other (differs : slot ≠ self)
    (overlooks : (machine.perform cpu self resume move next).Overlooks slot child) :
    machine.Overlooks slot child := by
  have legal := thread_legal coherent runs taken
  unfold Machine.Overlooks at overlooks ⊢
  by_cases allocated : ∃ parent pid, move.event = .alloc parent slot pid
  · obtain ⟨parent, pid, allocates⟩ := allocated
    rw [perform_thread_allocated differs allocates] at overlooks
    exact overlooks.1.elim
  · rw [perform_thread_other differs fun parent pid allocates => allocated ⟨parent, pid, allocates⟩]
      at overlooks
    exact overlooks.before legal (taken.not_leaves differs)

theorem alerted_other (rendezvous : machine.Rendezvous) (differs : slot ≠ self)
    (executes : machine.Executes slot) :
    (machine.perform cpu self resume move next).Alerted slot (machine.thread slot).point := by
  have alerted := rendezvous.alerted executes
  by_cases locked : Lock.wait ∈ (machine.thread slot).locks slot
  · refine alerted.mono (parent_of_executes coherent runs taken differs executes locked) ?_
    intro parent _ overlooks
    by_cases same : parent = self
    · subst same
      unfold Machine.Overlooks at overlooks
      rw [perform_thread_self] at overlooks
      rcases taken.overlooks_after overlooks with before | ⟨mine, _⟩
      · exact before
      · exact absurd (wait_exclusive coherent runs mine executes locked) differs
    · exact overlooks_other coherent runs taken same overlooks
  · exact Alerted.of_unlocked locked

theorem alerted_self (rendezvous : machine.Rendezvous) (family : Family machine.procs)
    (passes : ∀ lock ∈ move.passes, machine.lock lock = none) :
    (machine.perform cpu self resume move next).Alerted self next.point := by
  have alerted := rendezvous.alerted ⟨cpu, resume, runs⟩
  have asserts := coherent.asserts self
  have other := fun {slot child} differs =>
    @overlooks_other _ machine cpu self resume move next coherent runs taken
      _ slot child differs
  generalize point : machine.thread self = before at taken alerted asserts
  cases taken with
  | yield free | yielded free =>
    exact Alerted.of_preemptible free
  | call called => cases called <;> trivial
  | @awake site => cases site <;> trivial
  | reparentEnd =>
    refine ⟨rfl, fun parent _ outside => absurd (mem_slots parent) outside⟩
  | @wake slot status chan sleepers remaining differs =>
    cases remaining with
    | some => trivial
    | none =>
      have kept : ((LifeEvent.wakeup slot chan).apply machine.procs
          self).parent = (machine.procs self).parent :=
        LifeEvent.parent_kept machine.procs self rfl rfl
      refine ⟨alerted.1.trans (congrArg _ kept.symm), ?_⟩
      intro parent points outside overlooks
      replace points := kept.symm.trans points
      have foreign : parent ≠ self := by
        rintro rfl
        exact asserts.2 _ points
      by_cases same : parent = slot
      · subst same
        have chan : chan = some (.proc parent) := by
          rw [alerted.1, points]
          rfl
        subst chan
        have locked : Lock.wait ∈ (machine.thread self).locks self := by
          rw [point]
          exact .head _
        exact not_overlooks_woken coherent runs locked foreign
          (family.parent_alive points) (passes _ rfl) _ overlooks
      · exact alerted.2 parent points (List.not_mem_cons_of_ne_of_not_mem same outside)
          (other foreign overlooks)
  | @wakeSelf status chan sleepers remaining =>
    cases remaining with
    | some => trivial
    | none =>
      refine ⟨alerted.1, fun parent points outside overlooks => ?_⟩
      have foreign : parent ≠ self := by
        rintro rfl
        exact asserts.2 _ points
      exact alerted.2 parent points (List.not_mem_cons_of_ne_of_not_mem foreign outside)
        (other foreign overlooks)
  | wakeEnd =>
    intro parent points overlooks
    have foreign : parent ≠ self := by
      rintro rfl
      exact asserts.2 _ points
    exact alerted.2 parent points List.not_mem_nil (other foreign overlooks)
  | _ => trivial

theorem wakesInit_perform (family : Family machine.procs)
    (passes : ∀ lock ∈ move.passes, machine.lock lock = none) (wakes : machine.WakesInit)
    (overlooks : (machine.perform cpu self resume move next).Overlooks initproc child) :
    (machine.perform cpu self resume move next).WakesInit := by
  obtain ⟨slot, status, sleepers, remaining, executes, point, waits⟩ := wakes
  by_cases same : slot = self
  · subst same
    have asserts := coherent.asserts slot
    have stays := (perform_executes_iff coherent runs taken slot).mpr
    generalize thread : machine.thread slot = before at taken asserts
    rw [thread] at point
    cases taken with
    | yield free | yielded free =>
      cases (congrArg Point.preemptible point).symm.trans free
    | @wake woken _ chan _ _ differs =>
      cases point
      refine ⟨slot, status, _, remaining, stays ⟨executes, fun _ => rfl⟩,
        congrArg Thread.point perform_thread_self, ?_⟩
      rcases List.mem_cons.mp waits with rfl | later
      · have locked : Lock.wait ∈ (machine.thread slot).locks slot := by
          rw [thread]
          exact .head _
        exact absurd overlooks (not_overlooks_woken coherent runs locked
          differs family.init_alive (passes _ rfl) _)
      · exact later
    | wakeSelf =>
      cases point
      refine ⟨slot, status, _, remaining, stays ⟨executes, fun _ => rfl⟩,
        congrArg Thread.point perform_thread_self, ?_⟩
      exact (List.mem_cons.mp waits).resolve_left (Ne.symm asserts.1)
    | reparentOn =>
      cases point
      cases waits
    | _ => cases point
  · refine ⟨slot, status, sleepers, remaining, ?_, ?_, waits⟩
    · exact (perform_executes_iff coherent runs taken slot).mpr
        ⟨executes, fun again => absurd again same⟩
    · rw [perform_thread_eq coherent runs taken same executes]
      exact point

theorem zombies_perform (rendezvous : machine.Rendezvous) (family : Family machine.procs)
    (passes : ∀ lock ∈ move.passes, machine.lock lock = none)
    (points : (move.event.apply machine.procs child).parent = some parent)
    (zombie : (move.event.apply machine.procs child).state = .zombie)
    (overlooks : (machine.perform cpu self resume move next).Overlooks parent child) :
    parent = initproc ∧ (machine.perform cpu self resume move next).WakesInit := by
  have legal := thread_legal coherent runs taken
  rcases move.event.parent_apply machine.procs child with
    same | ⟨adopter, adopts, _⟩ | ⟨exiting, moves, moved⟩ | ⟨freed, _⟩
  · rw [same] at points
    rcases LifeEvent.edge_apply legal child with kept | edge
    · rw [kept] at zombie
      have before : machine.Overlooks parent child := by
        by_cases own : parent = self
        · subst own
          unfold Machine.Overlooks at overlooks
          rw [perform_thread_self] at overlooks
          rcases taken.overlooks_after overlooks with before | ⟨_, alive⟩
          · exact before
          · exact absurd zombie (alive points)
        · exact overlooks_other coherent runs taken own overlooks
      obtain ⟨rfl, wakes⟩ := rendezvous.zombies points zombie before
      exact ⟨rfl, wakesInit_perform coherent runs taken family passes wakes overlooks⟩
    · rw [zombie] at edge
      generalize (machine.procs child).state = earlier at edge
      generalize exits : move.event = event at edge
      cases edge with
      | exit =>
        obtain ⟨rfl, zombify⟩ := taken.exit_before exits
        rw [exits] at legal
        have foreign : parent ≠ child := by
          rintro rfl
          exact legal.2.2.2 _ points
        have alerted := rendezvous.alerted ⟨cpu, resume, runs⟩
        rw [zombify] at alerted
        exact absurd (overlooks_other coherent runs taken foreign overlooks) (alerted parent points)
  · rw [adopts] at legal zombie
    rw [LifeEvent.apply_target machine.procs rfl] at zombie
    cases legal.2.1.symm.trans zombie
  · obtain ⟨stays, status, remaining, waking⟩ := taken.reparent_after moves
    refine ⟨(Option.some.inj (moved.symm.trans points)).symm, self, status,
      slots, remaining, ?_, ?_, mem_slots initproc⟩
    · exact (perform_executes_iff coherent runs taken self).mpr
        ⟨⟨cpu, resume, runs⟩, fun _ => stays⟩
    · rw [perform_thread_self]
      exact waking
  · cases freed.symm.trans points

theorem perform_rendezvous (rendezvous : machine.Rendezvous) (family : Family machine.procs)
    (passes : ∀ lock ∈ move.passes, machine.lock lock = none) :
    (machine.perform cpu self resume move next).Rendezvous where
  alerted := by
    intro slot executes
    obtain ⟨before, _⟩ :=
      (perform_executes_iff coherent runs taken slot).mp executes
    by_cases same : slot = self
    · subst same
      rw [perform_thread_self]
      exact alerted_self coherent runs taken rendezvous family passes
    · rw [perform_thread_eq coherent runs taken same before]
      exact alerted_other coherent runs taken rendezvous same before
  zombies := zombies_perform coherent runs taken rendezvous family passes

end Thread

end Coherent

/-- The steps of scheduler() and of interrupts make no ZOMBIE, put none to sleep
and resume only threads at a resumable point. -/
theorem Rendezvous.transport {machine next : Machine Cpu} (rendezvous : machine.Rendezvous)
    (thread : next.thread = machine.thread)
    (parent : ∀ slot, (next.procs slot).parent = (machine.procs slot).parent)
    (zombie : ∀ slot, (next.procs slot).state = .zombie → (machine.procs slot).state = .zombie)
    (sleeping : ∀ slot, (next.procs slot).state = .sleeping → (machine.procs slot).state =
      .sleeping) (forward : ∀ slot, machine.Executes slot → next.Executes slot)
    (backward : ∀ slot, next.Executes slot → machine.Executes slot ∨
      (machine.thread slot).Resumable) : next.Rendezvous := by
  have overlooks : ∀ {slot child}, next.Overlooks slot child → machine.Overlooks slot child := by
    intro slot child later
    unfold Overlooks at later ⊢
    rw [thread] at later
    exact ⟨later.1, fun asleep => sleeping slot (later.2 asleep)⟩
  constructor
  · intro slot executes
    rw [thread]
    rcases backward slot executes with before | resumable
    · exact (rendezvous.alerted before).mono (parent slot) fun _ _ => overlooks
    · exact Alerted.of_resumable resumable
  · intro father child points dead later
    rw [parent] at points
    obtain ⟨init, slot, status, sleepers, remaining, executes, point, waits⟩ :=
      rendezvous.zombies points (zombie child dead) (overlooks later)
    refine ⟨init, slot, status, sleepers, remaining, forward slot executes, ?_, waits⟩
    rw [thread]
    exact point

variable [DecidableEq Cpu] {machine next : Machine Cpu}

theorem Step.rendezvous (coherent : machine.Coherent) (family : Family machine.procs)
    (rendezvous : machine.Rendezvous) (taken : Step machine label next) : next.Rendezvous := by
  cases taken with
  | schedule moved =>
    have executes := fun slot => Coherent.executes_update_idle
      (fun _ _ => Coherent.not_running_of_idle moved.idle.1) moved.idle.2 slot
    exact rendezvous.transport rfl (fun _ => rfl) (fun _ => id)
      (fun _ => id) (fun slot => (executes slot).mpr)
      (fun slot later => .inl ((executes slot).mp later))
  | @dispatch self resume _ cpu chosen _ =>
    have legal : (LifeEvent.dispatch self resume.isLottery).Legal machine.procs := chosen.runnable
    have executes := Coherent.dispatch_executes_iff chosen
    refine rendezvous.transport rfl (fun slot => LifeEvent.parent_kept machine.procs slot rfl rfl)
      (fun slot => LifeEvent.zombie_before legal nofun)
      (fun slot => LifeEvent.sleeping_before legal nofun)
      (fun slot before => (executes slot).mpr (.inr before)) ?_
    intro slot later
    rcases (executes slot).mp later with rfl | before
    · exact .inr (coherent.resumable chosen)
    · exact .inl before
  | @finish _ cpu self resume parked =>
    have executes := fun slot => Coherent.executes_update_idle
      (by rw [parked]; nofun) resume.proc_next slot
    exact rendezvous.transport rfl (fun _ => rfl) (fun _ => id)
      (fun _ => id) (fun slot => (executes slot).mpr)
      (fun slot later => .inl ((executes slot).mp later))
  | thread runs moved passes =>
    exact Coherent.perform_rendezvous coherent runs moved rendezvous family passes
  | @wakeup _ slot _ address =>
    have legal : (LifeEvent.wakeup slot (some (.other address))).Legal machine.procs := trivial
    exact rendezvous.transport rfl (fun slot => LifeEvent.parent_kept machine.procs slot rfl rfl)
      (fun slot => LifeEvent.zombie_before legal nofun)
      (fun slot => LifeEvent.sleeping_before legal nofun) (fun _ => id) (fun _ => .inl)

omit [DecidableEq Cpu] in
theorem boot_rendezvous : (boot : Machine Cpu).Rendezvous where
  alerted := by
    rintro slot ⟨cpu, resume, runs⟩
    cases runs
  zombies := by
    intro parent child points
    cases (ProcTable.userinit_parent child).symm.trans points

theorem run_rendezvous (run : Transition.Run (@Step Cpu _) boot labels machine) :
    machine.Rendezvous := by
  refine run.history (fun _ machine => machine.Rendezvous) boot_rendezvous ?_
  intro past middle label after run rendezvous taken
  exact taken.rendezvous (run_coherent run) (run_family run) rendezvous

omit [DecidableEq Cpu] in
/-- With wait_lock free no process sleeps in wait() while it has a ZOMBIE
child. -/
theorem Rendezvous.no_lost_wakeup (coherent : machine.Coherent) (rendezvous : machine.Rendezvous)
    (free : machine.lock .wait = none) (waits : (machine.thread slot).point = .asleep .wait)
    (asleep : (machine.procs slot).state = .sleeping)
    (parent : (machine.procs child).parent = some slot) :
    (machine.procs child).state ≠ .zombie := by
  intro zombie
  have overlooks : machine.Overlooks slot child := by
    unfold Overlooks Thread.Overlooks
    rw [waits]
    exact ⟨trivial, fun _ => asleep⟩
  obtain ⟨_, waker, status, sleepers, remaining, ⟨cpu, resume, runs⟩, point,
    _⟩ := rendezvous.zombies parent zombie overlooks
  have awake : (machine.thread waker).yielded ≠ true := by
    intro yielded
    have preempted := (machine.thread waker).preempted yielded
    rw [point] at preempted
    cases preempted
  refine coherent.owns.not_held free cpu ?_
  rw [Coherent.held_running runs, Thread.locks, if_neg awake, point]
  exact .head _

end Machine

end Xv6Lottery
