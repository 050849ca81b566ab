import Mathlib.Logic.Function.Basic
import Xv6Lottery.Lib.Transition

/-! push_off(), pop_off(), acquire() and release() of spinlock.c, sched(),
yield(), sleep() and scheduler() of proc.c, on any number of CPUs. `noff` and
`intena` belong to a CPU, and a kernel thread comes back from swtch() on any
of them. The fields of `struct proc` other than its lock and its context play
no part: scheduler() takes up any process that is in swtch(). -/

namespace Xv6Lottery.Interrupts

open Function

inductive Lock (Process Name : Type) where
  | proc (slot : Process)
  | named (lk : Name)
  deriving DecidableEq

/-- A flow of control with a stack of its own: the kernel thread of a process,
or scheduler() of a CPU. -/
inductive Context (Process Cpu : Type) where
  | proc (slot : Process)
  | sched (cpu : Cpu)
  deriving DecidableEq

inductive Point (Process Name : Type) where
  /-- Anywhere in the kernel outside the functions below. -/
  | code
  /-- forkret(), with the p->lock that scheduler() took. -/
  | forkret
  | yieldLocked
  | yieldBack
  | sleepLocked (lk : Lock Process Name)
  | sleepReleased (lk : Lock Process Name)
  | sleepBack (lk : Lock Process Name)
  | sleepUnlocked (lk : Lock Process Name)
  /-- scheduler(), with no lock. -/
  | loop
  | chosen (slot : Process)
  | back (slot : Process)

inductive Phase (Process Name : Type) where
  | here (point : Point Process Name)
  /-- acquire(): push_off() has read intr_get(). -/
  | disabling (lk : Lock Process Name) (old : Bool) (next : Point Process Name)
  /-- acquire(), after push_off(). -/
  | spinning (lk : Lock Process Name) (next : Point Process Name)
  /-- release(), before pop_off(). -/
  | popping (next : Point Process Name)
  /-- sched(), in swtch(), with its local `intena`. -/
  | away (intena : Bool) (next : Point Process Name)
  /-- sched(), after swtch(). -/
  | resumed (intena : Bool) (next : Point Process Name)
  /-- The context that allocproc() makes. -/
  | unborn
  /-- scheduler(), in swtch() to a process. -/
  | lent (slot : Process)

/-- The nesting depth and the saved bit of `struct cpu`, and the bit SIE of
sstatus. -/
structure Hart where
  noff : Nat
  intena : Bool
  sie : Bool
  deriving DecidableEq

namespace Hart

/-- push_off() from intr_off() on. -/
def pushOff (old : Bool) (hart : Hart) : Hart where
  noff := hart.noff + 1
  intena := if hart.noff = 0 then old else hart.intena
  sie := false

/-- pop_off() after its two checks. -/
def popOff (hart : Hart) : Hart where
  noff := hart.noff - 1
  intena := hart.intena
  sie := if hart.noff - 1 = 0 ∧ hart.intena = true then true else hart.sie

end Hart

structure Frame (Process Name : Type) where
  phase : Phase Process Name
  /-- Where an interrupt handler on the same stack returns to. -/
  trapped : Option (Phase Process Name)
  held : List (Lock Process Name)
  /-- SIE when the context last went from no lock into acquire(). Nothing
  reads it. -/
  entry : Bool

section Local

variable {Process Cpu Name : Type} [DecidableEq Process] [DecidableEq Name]

/-- A call of acquire(), with the point it returns to. Code takes locks that
it does not have; it calls yield() with no lock and sleep() with one. -/
inductive Acquires (self : Context Process Cpu) :
    List (Lock Process Name) → Point Process Name → Lock Process Name → Point Process Name → Prop
  | code : lk ∉ held → Acquires self held .code lk .code
  | yield : self = .proc slot → Acquires self [] .code (.proc slot) .yieldLocked
  | sleep : self = .proc slot → lk ≠ .proc slot →
      Acquires self [lk] .code (.proc slot) (.sleepLocked lk)
  | sleepEnd : Acquires self held (.sleepUnlocked lk) lk .code
  | loop : self = .sched cpu → Acquires self held .loop (.proc slot) (.chosen slot)

inductive Releases (self : Context Process Cpu) :
    List (Lock Process Name) → Point Process Name → Lock Process Name → Point Process Name → Prop
  | code : lk ∈ held → Releases self held .code lk .code
  | forkret : self = .proc slot → Releases self held .forkret (.proc slot) .code
  | yield : self = .proc slot → Releases self held .yieldBack (.proc slot) .code
  | sleep : Releases self held (.sleepLocked lk) lk (.sleepReleased lk)
  | sleepBack : self = .proc slot →
      Releases self held (.sleepBack lk) (.proc slot) (.sleepUnlocked lk)
  | passed : Releases self held (.chosen slot) (.proc slot) .loop
  | done : Releases self held (.back slot) (.proc slot) .loop

/-- A call of sched(), with the point it returns to. exit() gets there as
sleep() does, and does not return. -/
inductive Switches : Point Process Name → Point Process Name → Prop
  | yield : Switches .yieldLocked .yieldBack
  | sleep : Switches (.sleepReleased lk) (.sleepBack lk)

inductive LockOp (Process Name : Type) where
  | none
  | take (lk : Lock Process Name)
  | drop (lk : Lock Process Name)

/-- A step that a context takes on its CPU. -/
inductive Local (self : Context Process Cpu) (hart : Hart) (frame : Frame Process Name) :
    LockOp Process Name → Hart → Frame Process Name → Prop
  | acquire : frame.phase = .here point → Acquires self frame.held point lk next →
      Local self hart frame .none hart { frame with phase := .disabling lk hart.sie next }
  | pushOff : frame.phase = .disabling lk old next → Local self hart frame .none (hart.pushOff old)
        { frame with
          phase := .spinning lk next
          entry := if frame.held = [] then hart.sie else frame.entry }
  | take : frame.phase = .spinning lk next → Local self hart frame (.take lk) hart
        { frame with phase := .here next, held := lk :: frame.held }
  | release : frame.phase = .here point → Releases self frame.held point lk next →
      Local self hart frame (.drop lk) hart
        { frame with phase := .popping next, held := frame.held.erase lk }
  | popOff : frame.phase = .popping next → hart.sie = false → 1 ≤ hart.noff →
      Local self hart frame .none hart.popOff { frame with phase := .here next }
  | resume : frame.phase = .resumed intena next →
      Local self hart frame .none { hart with intena := intena } { frame with phase := .here next }
  -- An interrupt clears SIE, and the sret at the end of its handler sets it.
  | trap : hart.sie = true → frame.trapped = none →
      Local self hart frame .none { hart with sie := false }
        { frame with trapped := some frame.phase, phase := .here .code }
  | sret : frame.trapped = some phase → frame.phase = .here .code → frame.held = [] →
      Local self hart frame .none { hart with sie := true }
        { frame with trapped := none, phase := phase }
  -- intr_on() and intr_off() of usertrap() and usertrapret()
  | toggle : frame.trapped = none → frame.phase = .here .code → frame.held = [] →
      Local self hart frame .none { hart with sie := bit } frame
  -- intr_on() of scheduler()
  | intrOn : frame.phase = .here .loop → Local self hart frame .none { hart with sie := true } frame

end Local

structure Machine (Process Cpu Name : Type) where
  hart : Cpu → Hart
  current : Cpu → Context Process Cpu
  frame : Context Process Cpu → Frame Process Name
  lock : Lock Process Name → Option Cpu

section Machine

variable {Process Cpu Name : Type} [DecidableEq Process] [DecidableEq Cpu] [DecidableEq Name]

namespace LockOp

/-- The swap of acquire() finds the lock free; release() finds it held by
this CPU. -/
def Permitted (lock : Lock Process Name → Option Cpu) (cpu : Cpu) : LockOp Process Name → Prop
  | .none => True
  | .take lk => lock lk = .none
  | .drop lk => lock lk = some cpu

def held (locks : List (Lock Process Name)) : LockOp Process Name → List (Lock Process Name)
  | .none => locks
  | .take lk => lk :: locks
  | .drop lk => locks.erase lk

def apply (lock : Lock Process Name → Option Cpu) (cpu : Cpu) :
    LockOp Process Name → Lock Process Name → Option Cpu
  | .none => lock
  | .take lk => update lock lk (some cpu)
  | .drop lk => update lock lk .none

end LockOp

namespace Machine

/-- The context that a CPU executes, and its frame. -/
def running (machine : Machine Process Cpu Name) (cpu : Cpu) : Frame Process Name :=
  machine.frame (machine.current cpu)

def acted (machine : Machine Process Cpu Name) (cpu : Cpu)
    (op : LockOp Process Name) (after : Hart) (left : Frame Process Name) :
    Machine Process Cpu Name :=
  { machine with
    hart := update machine.hart cpu after
    frame := update machine.frame (machine.current cpu) left
    lock := op.apply machine.lock cpu }

/-- sched() checks holding(&p->lock), noff and intr_get() before swtch(). -/
structure Schedulable (machine : Machine Process Cpu Name) (cpu : Cpu) (slot : Process) : Prop where
  holding : machine.lock (.proc slot) = some cpu
  noff : (machine.hart cpu).noff = 1
  off : (machine.hart cpu).sie = false

/-- swtch(): a CPU leaves its context and goes on in another one, with the
frames that both of them have then. -/
def swtch (machine : Machine Process Cpu Name) (cpu : Cpu)
    (next : Context Process Cpu) (left entered : Frame Process Name) : Machine Process Cpu Name :=
  { machine with
    current := update machine.current cpu next
    frame := update (update machine.frame (machine.current cpu) left) next entered }

/-- The swtch() of sched(): scheduler() has p->lock after it. -/
def parked (machine : Machine Process Cpu Name) (cpu : Cpu)
    (slot : Process) (next : Point Process Name) : Machine Process Cpu Name :=
  machine.swtch cpu (.sched cpu)
    { machine.running cpu with
      phase := .away (machine.hart cpu).intena next
      held := [] }
    { machine.frame (.sched cpu) with
      phase := .here (.back slot)
      held := (machine.running cpu).held }

/-- What swtch() returns to in a process. -/
inductive Wakes (intena : Bool) (frame : Frame Process Name) : Phase Process Name → Bool → Prop
  | away : frame.phase = .away saved next → Wakes intena frame (.resumed saved next) frame.entry
  | unborn : frame.phase = .unborn → Wakes intena frame (.here .forkret) intena

/-- The swtch() of scheduler(): the process has p->lock after it. -/
def dispatched (machine : Machine Process Cpu Name) (cpu : Cpu)
    (slot : Process) (phase : Phase Process Name) (entry : Bool) : Machine Process Cpu Name :=
  machine.swtch cpu (.proc slot)
    { machine.running cpu with
      phase := .lent slot
      held := [] }
    { machine.frame (.proc slot) with
      phase := phase
      held := (machine.running cpu).held
      entry := entry }

inductive Step : Machine Process Cpu Name → Cpu → Machine Process Cpu Name → Prop
  | act : Local (machine.current cpu) (machine.hart cpu) (machine.running cpu) op after left →
      op.Permitted machine.lock cpu → Step machine cpu (machine.acted cpu op after left)
  | sched : machine.current cpu = .proc slot →
      (machine.running cpu).phase = .here point → Switches point next →
      machine.Schedulable cpu slot → Step machine cpu (machine.parked cpu slot next)
  | dispatch : machine.current cpu = .sched cpu →
      (machine.running cpu).phase = .here (.chosen slot) →
      Wakes (machine.hart cpu).intena (machine.frame (.proc slot)) phase entry →
      Step machine cpu (machine.dispatched cpu slot phase entry)

inductive Panics (machine : Machine Process Cpu Name) (cpu : Cpu) : Prop
  | acquire : (machine.running cpu).phase = .spinning lk next →
      machine.lock lk = some cpu → Panics machine cpu
  | release : (machine.running cpu).phase = .here point →
      Releases (machine.current cpu) (machine.running cpu).held point lk next →
      machine.lock lk ≠ some cpu → Panics machine cpu
  | popOff : (machine.running cpu).phase = .popping next →
      (machine.hart cpu).sie = true ∨ (machine.hart cpu).noff < 1 → Panics machine cpu
  | sched : machine.current cpu = .proc slot →
      (machine.running cpu).phase = .here point → Switches point next →
      ¬machine.Schedulable cpu slot → Panics machine cpu

def boot : Machine Process Cpu Name where
  hart := fun _ => ⟨0, false, false⟩
  current := .sched
  frame
    | .proc _ => ⟨.unborn, none, [], false⟩
    | .sched _ => ⟨.here .loop, none, [], false⟩
  lock := fun _ => none

end Machine

end Machine

end Xv6Lottery.Interrupts
