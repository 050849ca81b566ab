import Xv6Lottery.Lib.Transition
import Xv6Lottery.Lottery.Round
import Xv6Lottery.Proc.Thread

namespace Xv6Lottery

open Function

/-! scheduler() on one CPU. The loops of both modes are cut at the lock of
each slot; `running` and `back` are the two sides of the swtch() call. -/

/-- Where scheduler() goes on after a process: the rest of a round-robin
pass, or the top of the loop, since the lottery breaks. -/
inductive Resume where
  | lottery
  | roundRobin (remaining : List Slot)
  deriving DecidableEq

def Resume.isLottery : Resume → Bool
  | .lottery => true
  | .roundRobin _ => false

inductive SchedPoint where
  | top
  | count (remaining : List Slot) (total : BitVec 32)
  | drawn (total value : BitVec 32)
  | pick (remaining : List Slot) (winning current : BitVec 32)
  | roundRobin (remaining : List Slot)
  | running (self : Slot) (resume : Resume)
  | back (self : Slot) (resume : Resume)
  deriving DecidableEq

def Resume.next : Resume → SchedPoint
  | .lottery => .top
  | .roundRobin remaining => .roundRobin remaining

def SchedPoint.proc : SchedPoint → Option Slot
  | .running self _ | .back self _ => some self
  | _ => none

structure Machine (Cpu : Type) where
  procs : ProcTable
  lock : Lock → Option Cpu
  thread : Slot → Thread
  sched : Cpu → SchedPoint
  proc : Cpu → Option Slot
  nextpid : BitVec 32
  schedulerMode : BitVec 32
  seed : BitVec 32

/-- A step of scheduler() that switches to no process: the slot whose lock it
passes through, what it reads, and the seed it leaves. -/
inductive SchedStep (table : ProcTable) (mode seed : BitVec 32) :
    SchedPoint → LifeEvent → Option Slot → BitVec 32 → SchedPoint → Prop
  | lottery : mode = 1 → SchedStep table mode seed .top .lotteryRound none seed (.count slots 0)
  | roundRobin : mode ≠ 1 → SchedStep table mode seed .top .quiet none seed (.roundRobin slots)
  | count : SchedStep table mode seed (.count (slot :: remaining) total) .quiet (some slot) seed
        (.count remaining (if (table slot).state = .runnable then
            total + (table slot).tickets else total))
  | noTickets : SchedStep table mode seed (.count [] 0) .quiet none seed .top
  -- random() reads the global seed and stores it back without a lock.
  | draw : total ≠ 0 → SchedStep table mode seed (.count [] total) .quiet none seed
        (.drawn total (nextSeed seed))
  | store : SchedStep table mode seed (.drawn total value) .quiet none value
        (.pick slots (value % total) 0)
  | pass : (table slot).state ≠ .runnable →
      SchedStep table mode seed (.pick (slot :: remaining) winning current)
        .quiet (some slot) seed (.pick remaining winning current)
  | lose : (table slot).state = .runnable → ¬winning.slt (current + (table slot).tickets) →
      SchedStep table mode seed (.pick (slot :: remaining) winning current) .quiet (some slot) seed
        (.pick remaining winning (current + (table slot).tickets))
  | noWinner : SchedStep table mode seed (.pick [] winning current) .quiet none seed .top
  | skip : (table slot).state ≠ .runnable →
      SchedStep table mode seed (.roundRobin (slot :: remaining)) .quiet
        (some slot) seed (.roundRobin remaining)
  | endPass : SchedStep table mode seed (.roundRobin []) .quiet none seed .top

inductive Chooses (table : ProcTable) : SchedPoint → Slot → Resume → Prop
  | lottery : (table slot).state = .runnable → winning.slt (current + (table slot).tickets) →
      Chooses table (.pick (slot :: remaining) winning current) slot .lottery
  | roundRobin : (table slot).state = .runnable →
      Chooses table (.roundRobin (slot :: remaining)) slot (.roundRobin remaining)

theorem SchedStep.idle (taken : SchedStep table mode seed before event tested stored after) :
    before.proc = none ∧ after.proc = none := by
  cases taken <;> exact ⟨rfl, rfl⟩

theorem SchedStep.event_eq (taken : SchedStep table mode seed before event tested stored after) :
    event = .quiet ∨ event = .lotteryRound := by
  cases taken with
  | lottery => exact .inr rfl
  | _ => exact .inl rfl

theorem Chooses.idle (chosen : Chooses table point self resume) : point.proc = none := by
  cases chosen <;> rfl

theorem Chooses.runnable (chosen : Chooses table point self resume) :
    (table self).state = .runnable := by
  cases chosen <;> assumption

theorem Resume.proc_next (resume : Resume) : resume.next.proc = none := by
  cases resume <;> rfl

namespace Machine

variable {Cpu : Type} [DecidableEq Cpu]

def boot : Machine Cpu where
  procs := ProcTable.userinit
  lock := fun _ => none
  thread := fun slot =>
    if slot = initproc then Point.forkret.thread else Point.dead.thread
  sched := fun _ => .top
  proc := fun _ => none
  nextpid := 2
  schedulerMode := 0
  seed := 1

def advance (machine : Machine Cpu) (cpu : Cpu) (point : SchedPoint)
    (stored : BitVec 32) : Machine Cpu :=
  { machine with
    sched := update machine.sched cpu point
    seed := stored }

def dispatch (machine : Machine Cpu) (cpu : Cpu) (self : Slot) (resume : Resume) : Machine Cpu :=
  { machine with
    procs := (LifeEvent.dispatch self resume.isLottery).apply machine.procs
    lock := update machine.lock (.proc self) (some cpu)
    sched := update machine.sched cpu (.running self resume)
    proc := update machine.proc cpu (some self) }

def finish (machine : Machine Cpu) (cpu : Cpu) (self : Slot) (resume : Resume) : Machine Cpu :=
  { machine with
    lock := update machine.lock (.proc self) none
    sched := update machine.sched cpu resume.next
    proc := update machine.proc cpu none }

/-- allocproc() points the context of the new process at forkret(). -/
def threads (event : LifeEvent) (thread : Slot → Thread) : Slot → Thread :=
  match event with
  | .alloc _ child _ => update thread child Point.forkret.thread
  | _ => thread

def perform (machine : Machine Cpu) (cpu : Cpu) (self : Slot)
    (resume : Resume) (move : Move) (thread : Thread) : Machine Cpu :=
  { machine with
    procs := move.event.apply machine.procs
    lock := fun lock =>
      if lock ∈ move.releases then none
      else if move.acquires = some lock then some cpu
      else machine.lock lock
    thread := update (threads move.event machine.thread) self thread
    sched :=
      if move.switches then
        update machine.sched cpu (.back self resume)
      else machine.sched
    nextpid :=
      match move.event with
      | .alloc _ _ _ => machine.nextpid + 1
      | _ => machine.nextpid
    schedulerMode :=
      match move.event with
      | .setsched mode => mode
      | _ => machine.schedulerMode }

inductive Step : Machine Cpu → Cpu × LifeEvent → Machine Cpu → Prop
  | schedule : SchedStep machine.procs machine.schedulerMode machine.seed
        (machine.sched cpu) event tested stored point →
      (∀ slot ∈ tested, machine.lock (.proc slot) = none) →
      Step machine (cpu, event) (machine.advance cpu point stored)
  | dispatch : Chooses machine.procs (machine.sched cpu) self resume →
      machine.lock (.proc self) = none → Step machine (cpu, .dispatch self resume.isLottery)
        (machine.dispatch cpu self resume)
  | finish : machine.sched cpu = .back self resume →
      Step machine (cpu, .quiet) (machine.finish cpu self resume)
  | thread : machine.sched cpu = .running self resume →
      ThreadStep self machine.procs machine.nextpid (machine.thread self) move next →
      (∀ lock ∈ move.passes, machine.lock lock = none) →
      (∀ lock ∈ move.acquires, machine.lock lock = none) → Step machine (cpu, move.event)
        (machine.perform cpu self resume move next)
  -- wakeup() of a device interrupt, or of kernel code outside proc.c
  | wakeup : (∀ lock, machine.lock lock ≠ some cpu) → machine.proc cpu ≠ some slot →
      machine.lock (.proc slot) = none → Step machine (cpu, .wakeup slot (some (.other address)))
        { machine with
          procs := (LifeEvent.wakeup slot (some (.other address))).apply machine.procs }

theorem advance_advance {machine : Machine Cpu} (first second : SchedPoint)
    (stored kept : BitVec 32) :
    (machine.advance cpu first stored).advance cpu second kept =
      machine.advance cpu second kept := by
  unfold advance
  simp only [update_idem]

theorem advance_self {machine : Machine Cpu} (here : machine.sched cpu = point) :
    machine.advance cpu point machine.seed = machine := by
  subst here
  unfold advance
  rw [update_eq_self]

section Perform

variable {machine : Machine Cpu} {cpu : Cpu} {self slot : Slot}
  {resume : Resume} {move : Move} {next : Thread}

theorem perform_thread : (machine.perform cpu self resume move next).thread =
      update (threads move.event machine.thread) self next := rfl

theorem perform_thread_self : (machine.perform cpu self resume move next).thread self = next := by
  rw [perform_thread, update_self]

theorem perform_thread_allocated (differs : slot ≠ self)
    (allocates : move.event = .alloc parent slot pid) :
    (machine.perform cpu self resume move next).thread slot = Point.forkret.thread := by
  rw [perform_thread, update_of_ne differs, allocates, threads, update_self]

theorem perform_thread_other (differs : slot ≠ self)
    (spared : ∀ parent pid, move.event ≠ .alloc parent slot pid) :
    (machine.perform cpu self resume move next).thread slot = machine.thread slot := by
  rw [perform_thread, update_of_ne differs]
  generalize move.event = event at spared ⊢
  cases event with
  | alloc parent child pid =>
    have other : slot ≠ child := by
      rintro rfl
      exact spared parent pid rfl
    exact update_of_ne other _ _
  | _ => rfl

theorem perform_sched_other (differs : other ≠ cpu) :
    (machine.perform cpu self resume move next).sched other = machine.sched other := by
  unfold perform
  dsimp only
  split
  · exact update_of_ne differs _ _
  · rfl

theorem perform_sched_stays (stays : move.switches = false) :
    (machine.perform cpu self resume move next).sched cpu = machine.sched cpu := by
  simp [perform, stays]

theorem perform_sched_switches (switches : move.switches = true) :
    (machine.perform cpu self resume move next).sched cpu = .back self resume := by
  simp [perform, switches]

end Perform

/-! Runs extended by one given step. -/

section Extend

variable {start machine : Machine Cpu} {labels : List (Cpu × LifeEvent)}
  (run : Transition.Run Step start labels machine)

include run

theorem run_advance (cpu : Cpu) (event : LifeEvent) (tested : Option Slot) (stored : BitVec 32)
    (point : SchedPoint) (moved : SchedStep machine.procs machine.schedulerMode machine.seed
      (machine.sched cpu) event tested stored point)
    (free : ∀ slot ∈ tested, machine.lock (.proc slot) = none) :
    Transition.Run Step start (labels ++ [(cpu, event)]) (machine.advance cpu point stored) :=
  run.tail (.schedule moved free)

theorem run_dispatch (cpu : Cpu) (self : Slot) (resume : Resume)
    (chosen : Chooses machine.procs (machine.sched cpu) self resume)
    (free : machine.lock (.proc self) = none) :
    Transition.Run Step start (labels ++ [(cpu, .dispatch self resume.isLottery)])
      (machine.dispatch cpu self resume) :=
  run.tail (.dispatch chosen free)

theorem run_perform (cpu : Cpu) (self : Slot) (resume : Resume) (move : Move) (next : Thread)
    (runs : machine.sched cpu = .running self resume)
    (moved : ThreadStep self machine.procs machine.nextpid (machine.thread self) move next)
    (passes : ∀ lock ∈ move.passes, machine.lock lock = none)
    (acquires : ∀ lock ∈ move.acquires, machine.lock lock = none) :
    Transition.Run Step start (labels ++ [(cpu, move.event)])
      (machine.perform cpu self resume move next) :=
  run.tail (.thread runs moved passes acquires)

end Extend

/-! One CPU that has taken up initproc, round robin, and is past
forkret(). -/

def started : Machine Unit :=
  ((boot.advance () (.roundRobin slots) 1).dispatch () initproc
    (.roundRobin slots.tail)).perform () initproc (.roundRobin slots.tail)
      { releases := [.proc initproc] } Point.code.thread

def startLabels : List (Unit × LifeEvent) :=
  [((), .quiet), ((), .dispatch initproc false), ((), .quiet)]

theorem started_run : Transition.Run Step boot startLabels started := by
  have booted : Transition.Run Step boot [] (boot : Machine Unit) := .refl
  have scheduled := run_advance booted () .quiet none 1 (.roundRobin slots)
    (.roundRobin (by decide)) nofun
  have dispatched := run_dispatch scheduled () initproc
    (.roundRobin slots.tail) (.roundRobin rfl) rfl
  exact run_perform dispatched () initproc (.roundRobin slots.tail)
    { releases := [.proc initproc] } Point.code.thread rfl .forkret (by simp) (by simp)

theorem started_lock (lock : Lock) : started.lock lock = none := by
  by_cases released : lock ∈ [Lock.proc initproc]
  · exact if_pos released
  · refine (if_neg released).trans (update_of_ne ?_ _ _)
    rintro rfl
    exact released (.head _)

/-! Further steps of initproc on that CPU. -/

def initStep (machine : Machine Unit) (move : Move) (point : Point) : Machine Unit :=
  machine.perform () initproc (.roundRobin slots.tail) move point.thread

theorem run_initStep (run : Transition.Run Step start labels machine) (move : Move)
    (point : Point) (runs : machine.sched () = .running initproc (.roundRobin slots.tail))
    (moved : ThreadStep initproc machine.procs machine.nextpid (machine.thread initproc) move
      point.thread) (passes : ∀ lock ∈ move.passes, machine.lock lock = none)
    (acquires : ∀ lock ∈ move.acquires, machine.lock lock = none) :
    Transition.Run Step start (labels ++ [((), move.event)]) (machine.initStep move point) :=
  run.tail (.thread runs moved passes acquires)

def firstChild : Slot := ⟨1, by decide⟩

def forks (machine : Machine Unit) : Machine Unit :=
  ((((((machine.initStep {} (.alloc slots)).initStep
    { passes := some (.proc initproc) } (.alloc slots.tail)).initStep
    { event := .alloc initproc firstChild machine.nextpid
      acquires := some (.proc firstChild) } (.copying firstChild)).initStep
    { releases := [.proc firstChild] } (.adopting firstChild)).initStep
    { event := .adopt initproc firstChild
      passes := some .wait } (.readying firstChild)).initStep
    { event := .ready initproc firstChild
      passes := some (.proc firstChild) } .code)

def forkLabels (pid : BitVec 32) : List (Unit × LifeEvent) :=
  [((), .quiet), ((), .quiet), ((), .alloc initproc firstChild pid),
    ((), .quiet), ((), .adopt initproc firstChild), ((), .ready initproc firstChild)]

theorem forks_run (runs : machine.sched () = .running initproc (.roundRobin slots.tail))
    (ready : machine.thread initproc = Point.code.thread)
    (free : ∀ lock, machine.lock lock = none) (inUse : (machine.procs initproc).state ≠ .unused)
    (unused : (machine.procs firstChild).state = .unused) :
    Transition.Run Step machine (forkLabels machine.nextpid) machine.forks := by
  have begun : Transition.Run Step machine [] machine := .refl
  have called := run_initStep begun {} (.alloc slots) runs (ready ▸ .call .fork) nofun nofun
  have scanned := run_initStep called { passes := some (.proc initproc) }
    (.alloc slots.tail) runs (.allocMiss inUse) (fun _ _ => free _) nofun
  have allocated := run_initStep scanned
    { event := .alloc initproc firstChild machine.nextpid
      acquires := some (.proc firstChild) } (.copying firstChild) runs
    (.allocHit unused) nofun (fun _ _ => free _)
  have copied := run_initStep allocated { releases := [.proc firstChild] }
    (.adopting firstChild) runs .forkCopied nofun nofun
  have adopted := run_initStep copied
    { event := .adopt initproc firstChild
      passes := some .wait } (.readying firstChild) runs .adopt
    (by rintro lock ⟨⟩; exact free _) nofun
  exact run_initStep adopted
    { event := .ready initproc firstChild
      passes := some (.proc firstChild) } .code runs .ready (by rintro lock ⟨⟩; rfl) nofun

theorem initStep_lock {machine : Machine Unit} (free : ∀ lock, machine.lock lock = none)
    (acquires : move.acquires = none) (point : Point) (lock : Lock) :
    (machine.initStep move point).lock lock = none := by
  unfold initStep perform
  dsimp only
  rw [acquires, if_neg (nofun : ¬none = some lock), free, ite_self]

theorem forks_lock {machine : Machine Unit} (free : ∀ lock, machine.lock lock = none)
    (lock : Lock) : machine.forks.lock lock = none := by
  refine initStep_lock (initStep_lock ?_ rfl _) rfl _ lock
  intro lock
  by_cases taken : lock ∈ [Lock.proc firstChild]
  · exact if_pos taken
  · have other : ¬some (Lock.proc firstChild) = some lock := by
      rintro ⟨⟩
      exact taken (.head _)
    refine (if_neg taken).trans ((if_neg nofun).trans ?_)
    refine (if_neg other).trans ?_
    exact initStep_lock (initStep_lock free rfl _) rfl _ lock

def killsSecond (machine : Machine Unit) (pid : BitVec 32) : Machine Unit :=
  ((machine.initStep {} (.kill pid slots)).initStep
    { passes := some (.proc initproc) } (.kill pid slots.tail)).initStep
    { event := .kill firstChild pid
      passes := some (.proc firstChild) } .code

def killLabels (pid : BitVec 32) : List (Unit × LifeEvent) :=
  [((), .quiet), ((), .quiet), ((), .kill firstChild pid)]

theorem killsSecond_run (runs : machine.sched () = .running initproc (.roundRobin slots.tail))
    (ready : machine.thread initproc = Point.code.thread)
    (free : ∀ lock, machine.lock lock = none) (passed : (machine.procs initproc).pid ≠ pid)
    (found : (machine.procs firstChild).pid = pid) :
    Transition.Run Step machine (killLabels pid) (machine.killsSecond pid) := by
  have begun : Transition.Run Step machine [] machine := .refl
  have called := run_initStep begun {} (.kill pid slots) runs (ready ▸ .call .kill) nofun nofun
  have scanned := run_initStep called { passes := some (.proc initproc) }
    (.kill pid slots.tail) runs (.killMiss passed) (fun _ _ => free _) nofun
  exact run_initStep scanned
    { event := .kill firstChild pid
      passes := some (.proc firstChild) } .code runs (.killHit found) (fun _ _ => free _) nofun

theorem killsSecond_lock {machine : Machine Unit} (free : ∀ lock, machine.lock lock = none)
    (pid : BitVec 32) (lock : Lock) : (machine.killsSecond pid).lock lock = none :=
  initStep_lock (initStep_lock (initStep_lock free rfl _) rfl _) rfl _ lock

end Machine

end Xv6Lottery
