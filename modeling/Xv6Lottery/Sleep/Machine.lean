import Xv6Lottery.Lib.Transition
import Xv6Lottery.Proc.Table

/-! sleep(), wakeup(), kill() and killed() of proc.c, under kernel code of any
kind that calls them, on any number of CPUs. A section that acquires and
releases one lock is one step; a lock that stays held across steps is in the
state. -/

namespace Xv6Lottery.Sleep

open Function

/-- `p->lock`, or a spinlock that kernel code gives to sleep(). -/
inductive Lock (Process Name : Type) where
  | proc (slot : Process)
  | named (lk : Name)
  deriving DecidableEq

/-- An instruction of kernel code, with the point where it goes on. -/
inductive Instr (Process Name Chan Data Point : Type) where
  | choose (options : Point → Prop)
  | acquire (lk : Name) (next : Point)
  | release (lk : Name) (next : Point)
  | sleep (chan : Chan) (lk : Name) (next : Point)
  | wakeup (chan : Chan) (next : Point)
  | killed (next : Bool → Point)
  /-- kill() with what it returns: was there such a process? -/
  | kill (pid : Nat) (next : Bool → Point)
  /-- A use of the data that the code shares. -/
  | access (use : Process → Data → Data × Point)

structure Record (Chan : Type) where
  state : ProcState
  chan : Option Chan
  killed : Bool
  pid : Nat

namespace Record

variable {Chan : Type}

def doze (chan : Chan) (process : Record Chan) : Record Chan :=
  { process with chan := some chan, state := .sleeping }

def rouse [DecidableEq Chan] (chan : Chan) (process : Record Chan) : Record Chan :=
  if process.state = .sleeping ∧ process.chan = some chan then
    { process with state := .runnable }
  else
    process

/-- The critical section of kill(), for the process that it looks for. -/
def kill (process : Record Chan) : Record Chan :=
  { process with
    killed := true
    state := if process.state = .sleeping then .runnable else process.state }

end Record

inductive Phase (Process Name Chan Point : Type) where
  | code (point : Point)
  /-- In sleep(), with `lk` and p->lock. -/
  | falling (chan : Chan) (lk : Name) (next : Point)
  /-- In sleep(), with p->lock, after release(lk). -/
  | dozing (chan : Chan) (lk : Name) (next : Point)
  /-- In sched(), called from sleep(). -/
  | asleep (chan : Chan) (lk : Name) (next : Point)
  /-- In sleep(), before acquire(lk). -/
  | rising (lk : Name) (next : Point)
  /-- In wakeup(), before the processes left. -/
  | waking (chan : Chan) (rest : List Process) (next : Point)
  /-- In kill(), before the processes left. -/
  | seeking (pid : Nat) (rest : List Process) (next : Bool → Point)

structure Thread (Process Name Chan Point : Type) where
  phase : Phase Process Name Chan Point
  /-- In the sched() of yield(), or before the first one. -/
  yielded : Bool

/-- Where scheduler() is: it looks for a process, it has switched to one, or
that one has switched back. -/
inductive CpuPoint (Process : Type) where
  | idle
  | runs (self : Process)
  | back (self : Process)
  deriving DecidableEq

def CpuPoint.proc {Process : Type} : CpuPoint Process → Option Process
  | .idle => none
  | .runs self | .back self => some self

structure Machine (Process Cpu Name Chan Data Point : Type) where
  procs : Process → Record Chan
  lock : Lock Process Name → Option Cpu
  cpus : Cpu → CpuPoint Process
  threads : Process → Thread Process Name Chan Point
  data : Data

inductive Label (Process Name Chan : Type) where
  | quiet
  /-- sleep() is called, and has p->lock. -/
  | sleep (self : Process) (chan : Chan) (lk : Name)
  | wakeup (self : Process) (chan : Chan)
  /-- wakeup() returns. -/
  | woken (self : Process) (chan : Chan)
  /-- kill() has found its process. -/
  | kill (self victim : Process)
  deriving DecidableEq

structure Move (Process Name Chan Data : Type) where
  label : Label Process Name Chan := .quiet
  /-- The lock of a section that begins and ends in this step. -/
  passes : Option (Lock Process Name) := none
  acquires : Option (Lock Process Name) := none
  releases : Option (Lock Process Name) := none
  /-- The process whose record the step changes. -/
  changes : Option (Process × Record Chan) := none
  data : Data
  /-- The step ends in the swtch() of sched(). -/
  switches : Bool := false

section Threads

variable {Process Name Chan Data Point : Type} [FinEnum Process] [DecidableEq Chan]

inductive ThreadStep (code : Point → Instr Process Name Chan Data Point)
    (self : Process) (procs : Process → Record Chan) (data : Data) :
    Phase Process Name Chan Point → Move Process Name Chan Data →
      Phase Process Name Chan Point → Prop
  | choose : code point = .choose options → options next →
      ThreadStep code self procs data (.code point) { data := data } (.code next)
  | acquire : code point = .acquire lk next → ThreadStep code self procs data (.code point)
        { acquires := some (.named lk), data := data } (.code next)
  | release : code point = .release lk next → ThreadStep code self procs data (.code point)
        { releases := some (.named lk), data := data } (.code next)
  | access : code point = .access use → ThreadStep code self procs data (.code point)
        { data := (use self data).1 } (.code (use self data).2)
  | killed : code point = .killed next → ThreadStep code self procs data (.code point)
        { passes := some (.proc self), data := data } (.code (next (procs self).killed))
  -- sleep()
  | sleep : code point = .sleep chan lk next → ThreadStep code self procs data (.code point)
        { label := .sleep self chan lk
          acquires := some (.proc self)
          data := data } (.falling chan lk next)
  | fall : ThreadStep code self procs data (.falling chan lk next)
        { releases := some (.named lk), data := data } (.dozing chan lk next)
  | doze : ThreadStep code self procs data (.dozing chan lk next)
        { changes := some (self, (procs self).doze chan)
          data := data
          switches := true } (.asleep chan lk next)
  | rise : ThreadStep code self procs data (.asleep chan lk next)
        { releases := some (.proc self)
          changes := some (self, { procs self with chan := none })
          data := data } (.rising lk next)
  | regain : ThreadStep code self procs data (.rising lk next)
        { acquires := some (.named lk), data := data } (.code next)
  -- wakeup()
  | wakeup : code point = .wakeup chan next → ThreadStep code self procs data (.code point)
        { label := .wakeup self chan, data := data } (.waking chan (FinEnum.toList Process) next)
  | wake : slot ≠ self → ThreadStep code self procs data (.waking chan (slot :: rest) next)
        { passes := some (.proc slot)
          changes := some (slot, (procs slot).rouse chan)
          data := data } (.waking chan rest next)
  | wakeSelf : ThreadStep code self procs data (.waking chan (self :: rest) next)
        { data := data } (.waking chan rest next)
  | woken : ThreadStep code self procs data (.waking chan [] next)
        { label := .woken self chan, data := data } (.code next)
  -- kill()
  | kill : code point = .kill pid next →
      ThreadStep code self procs data (.code point) { data := data }
        (.seeking pid (FinEnum.toList Process) next)
  | killHit : (procs slot).pid = pid →
      ThreadStep code self procs data (.seeking pid (slot :: rest) next)
        { label := .kill self slot
          passes := some (.proc slot)
          changes := some (slot, (procs slot).kill)
          data := data } (.code (next true))
  | killMiss : (procs slot).pid ≠ pid →
      ThreadStep code self procs data (.seeking pid (slot :: rest) next)
        { passes := some (.proc slot), data := data } (.seeking pid rest next)
  | killEnd : ThreadStep code self procs data (.seeking pid [] next)
        { data := data } (.code (next false))

end Threads

namespace Machine

section Changes

variable {Process Cpu Name Chan Data Point : Type} [DecidableEq Process]
  [DecidableEq Cpu] [DecidableEq Name] (machine : Machine Process Cpu Name Chan Data Point)

def setLock (lock : Lock Process Name) (holder : Option Cpu) :
    Machine Process Cpu Name Chan Data Point :=
  { machine with lock := update machine.lock lock holder }

def setProc (slot : Process) (process : Record Chan) : Machine Process Cpu Name Chan Data Point :=
  { machine with procs := update machine.procs slot process }

def setCpu (cpu : Cpu) (point : CpuPoint Process) : Machine Process Cpu Name Chan Data Point :=
  { machine with cpus := update machine.cpus cpu point }

def setThread (self : Process) (thread : Thread Process Name Chan Point) :
    Machine Process Cpu Name Chan Data Point :=
  { machine with threads := update machine.threads self thread }

def perform (cpu : Cpu) (self : Process) (move : Move Process Name Chan Data)
    (phase : Phase Process Name Chan Point) : Machine Process Cpu Name Chan Data Point where
  procs := match move.changes with
    | some (slot, process) => update machine.procs slot process
    | none => machine.procs
  lock := fun lock =>
    if move.releases = some lock then none
    else if move.acquires = some lock then some cpu
    else machine.lock lock
  cpus := if move.switches then
      update machine.cpus cpu (.back self)
    else machine.cpus
  threads := update machine.threads self ⟨phase, false⟩
  data := move.data

end Changes

variable {Process Cpu Name Chan Data Point : Type} [FinEnum Process]
  [DecidableEq Cpu] [DecidableEq Name] [DecidableEq Chan]

/-- The steps of all CPUs; where the source panics there is none. -/
inductive Step (code : Point → Instr Process Name Chan Data Point) :
    Machine Process Cpu Name Chan Data Point → Label Process Name Chan →
      Machine Process Cpu Name Chan Data Point → Prop
  | thread {machine : Machine Process Cpu Name Chan Data Point} {cpu : Cpu} {self : Process}
      {before after : Phase Process Name Chan Point} {move : Move Process Name Chan Data} :
      machine.cpus cpu = .runs self → machine.threads self = ⟨before, false⟩ →
      ThreadStep code self machine.procs machine.data before move after →
      (∀ lock ∈ move.passes, machine.lock lock = none) →
      (∀ lock ∈ move.acquires, machine.lock lock = none) →
      (∀ lock ∈ move.releases, machine.lock lock = some cpu) →
      -- sched() panics if the CPU has a lock other than p->lock.
      (move.switches = true → ∀ lock, machine.lock lock = some cpu → lock = .proc self) →
      Step code machine move.label (machine.perform cpu self move after)
  -- yield(), from a timer interrupt, where the CPU has no lock
  | yield {machine : Machine Process Cpu Name Chan Data Point} {cpu : Cpu} {self : Process}
      {phase : Phase Process Name Chan Point} : machine.cpus cpu = .runs self →
      machine.threads self = ⟨phase, false⟩ → (∀ lock, machine.lock lock ≠ some cpu) →
      machine.lock (.proc self) = none → Step code machine .quiet
        ((((machine.setLock (.proc self) (some cpu)).setProc self
          { machine.procs self with state := .runnable }).setCpu cpu
          (.back self)).setThread self ⟨phase, true⟩)
  | resume {machine : Machine Process Cpu Name Chan Data Point} {cpu : Cpu} {self : Process}
      {phase : Phase Process Name Chan Point} : machine.cpus cpu = .runs self →
      machine.threads self = ⟨phase, true⟩ → Step code machine .quiet
        ((machine.setLock (.proc self) none).setThread self ⟨phase, false⟩)
  -- scheduler(), whichever process it chooses
  | dispatch {machine : Machine Process Cpu Name Chan Data Point} {cpu : Cpu} {self : Process} :
      machine.cpus cpu = .idle → (machine.procs self).state = .runnable →
      machine.lock (.proc self) = none → Step code machine .quiet
        (((machine.setLock (.proc self) (some cpu)).setProc self
          { machine.procs self with state := .running }).setCpu cpu (.runs self))
  | finish {machine : Machine Process Cpu Name Chan Data Point} {cpu : Cpu} {self : Process} :
      machine.cpus cpu = .back self → Step code machine .quiet
        ((machine.setLock (.proc self) none).setCpu cpu .idle)
  -- the wakeup() of an interrupt handler
  | interrupt {machine : Machine Process Cpu Name Chan Data Point} {slot : Process} {chan : Chan} :
      machine.lock (.proc slot) = none → Step code machine .quiet
        (machine.setProc slot ((machine.procs slot).rouse chan))

structure Boot (start : Process → Point)
    (machine : Machine Process Cpu Name Chan Data Point) : Prop where
  runnable : ∀ slot, (machine.procs slot).state = .runnable
  free : ∀ lock, machine.lock lock = none
  idle : ∀ cpu, machine.cpus cpu = .idle
  ready : ∀ slot, machine.threads slot = ⟨.code (start slot), true⟩

end Machine

end Xv6Lottery.Sleep
