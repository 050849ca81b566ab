import Xv6Lottery.Param

namespace Xv6Lottery

/-! The process table of proc.h. A `struct proc *` is the index of its slot;
`kstack`, `sz`, `pagetable`, `trapframe`, `context` and `name` are not read
by the scheduler or by the life cycle of a process. -/

abbrev Slot := Fin nproc

def slots : List Slot := List.finRange nproc

theorem mem_slots (slot : Slot) : slot ∈ slots :=
  List.mem_finRange slot

inductive ProcState where
  | unused
  | used
  | sleeping
  | runnable
  | running
  | zombie
  deriving DecidableEq, Repr

/-- A sleep channel: the address of a table slot, as wait() uses, or any
other kernel address. -/
inductive Chan where
  | proc (slot : Slot)
  | other (address : Nat)
  deriving DecidableEq, Repr

structure Proc where
  state : ProcState
  chan : Option Chan
  killed : Bool
  xstate : BitVec 32
  pid : BitVec 32
  tickets : BitVec 32
  parent : Option Slot
  deriving DecidableEq, Repr

abbrev ProcTable := Slot → Proc

/-- userinit() runs first, so allocproc() gives it the first slot. -/
def initproc : Slot := ⟨0, by decide⟩

namespace Proc

def blank : Proc where
  state := .unused
  chan := none
  killed := false
  xstate := 0
  pid := 0
  tickets := 0
  parent := none

/-- `tickets` keeps its old value: freeproc does not clear it. -/
def freeproc (process : Proc) : Proc :=
  { process with
    pid := 0
    parent := none
    chan := none
    killed := false
    xstate := 0
    state := .unused }

end Proc

def ProcTable.userinit : ProcTable := fun slot =>
  if slot = initproc then
    { Proc.blank with state := .runnable, pid := 1, tickets := 10 }
  else Proc.blank

theorem ProcTable.userinit_parent (slot : Slot) : (userinit slot).parent = none := by
  unfold userinit
  split <;> rfl

end Xv6Lottery
