import Xv6Lottery.Proc.Table
import Xv6Lottery.Vm.Uvm

/-! The process table with the memory of the processes: allocproc(), freeproc()
and fork() of proc.c. `kstack` and `context` are for swtch() only. -/

namespace Xv6Lottery.Vm

open Function

structure Task extends Proc where
  sz : UInt64
  pagetable : Option Page
  trapframe : Option Page
  ofile : Fin nofile → Option (Fin nfile)
  cwd : Option (Fin ninode)
  name : Nat → UInt8

/-- Memory, the process table, and the references to files and inodes. -/
structure System where
  ram : Ram
  procs : Slot → Task
  nextpid : BitVec 32
  fileRef : Fin nfile → Int
  inodeRef : Fin ninode → Int

namespace System

variable (k : System)

def setProc (p : Slot) (task : Task) : System :=
  { k with procs := update k.procs p task }

def setRam (ram : Ram) : System := { k with ram := ram }

end System

def pointer {α : Type} : Option α → Except Panic α
  | none => .error .kerneltrap
  | some value => .ok value

def freeIfSet (free : Page → Ram → Except Panic Ram) : Option Page → Ram → Except Panic Ram
  | none, ram => .ok ram
  | some page, ram => free page ram

def Task.clear (task : Task) : Task :=
  { task with
    toProc := task.toProc.freeproc
    trapframe := none
    pagetable := none
    sz := 0
    name := update task.name 0 0 }

def freeproc (p : Slot) (k : System) : Except Panic System := do
  let ram ← freeIfSet (fun page ram => ram.kfree page) (k.procs p).trapframe k.ram
  let ram ← freeIfSet (fun page ram => procFreepagetable page (k.procs p).sz ram)
    (k.procs p).pagetable ram
  return (k.setRam ram).setProc p (k.procs p).clear

/-- `text` is the page with the code of trampoline.S. -/
def allocproc (text : Page) (k : System) : Except Panic (Option Slot × System) :=
  match slots.find? (fun slot => (k.procs slot).state = .unused) with
  | none => .ok (none, k)
  | some p =>
    let task := { k.procs p with
      pid := k.nextpid, state := .used, tickets := 10 }
    let k := { k with nextpid := k.nextpid + 1 }
    match k.ram.kalloc with
    | (none, ram) => do
        let k ← freeproc p ((k.setRam ram).setProc p { task with trapframe := none })
        return (none, k)
    | (some frame, ram) => do
        let (pagetable, ram) ← procPagetable text frame ram
        let k := (k.setRam ram).setProc p
          { task with trapframe := some frame, pagetable := pagetable }
        if pagetable.isNone then
          let k ← freeproc p k
          return (none, k)
        else return (some p, k)

def filedup (f : Fin nfile) (k : System) : Except Panic System :=
  if k.fileRef f < 1 then .error .filedup
  else .ok { k with
    fileRef := update k.fileRef f (k.fileRef f + 1) }

def idup (ip : Fin ninode) (k : System) : System :=
  { k with inodeRef := update k.inodeRef ip (k.inodeRef ip + 1) }

def safestrcpyFrom (t : Nat → UInt8) : Nat → Nat → (Nat → UInt8) → Nat → UInt8
  | 0, i, s => update s i 0
  | n + 1, i, s =>
    if t i ≠ 0 then safestrcpyFrom t n (i + 1) (update s i (t i))
    else update (update s i (t i)) (i + 1) 0

def safestrcpy (s t : Nat → UInt8) (n : Nat) : Nat → UInt8 :=
  if n = 0 then s else safestrcpyFrom t (n - 1) 0 s

def forkFile (p np : Slot) (k : System) (i : Fin nofile) : Except Panic System :=
  match (k.procs p).ofile i with
  | none => .ok k
  | some f => do
      let k ← filedup f k
      return k.setProc np { k.procs np with
        ofile := update (k.procs np).ofile i (some f) }

def trapframeSize : Nat := 288

def a0 (frame : Page) : UInt64 := frame.entry 14

/-- The saved registers of the parent, with 0 as the result of fork(). -/
def copyTrapframe (source target : Page) (ram : Ram) : Ram :=
  (ram.memmove target.addr (fun j => ram.byte (source.addr + UInt64.ofNat j))
    trapframeSize).store (a0 target) 0

def forkRest (p np : Slot) (k : System) : Except Panic (Int × System) := do
  let source ← pointer (k.procs p).trapframe
  let target ← pointer (k.procs np).trapframe
  let k := k.setRam (copyTrapframe source target k.ram)
  let k ← (List.finRange nofile).foldlM (forkFile p np) k
  let cwd ← pointer (k.procs p).cwd
  let k := idup cwd k
  let k := k.setProc np { k.procs np with
    cwd := some cwd
    name := safestrcpy (k.procs np).name (k.procs p).name 16
    parent := some p
    state := .runnable }
  return ((k.procs np).pid.toInt, k)

def fork (text : Page) (p : Slot) (k : System) : Except Panic (Int × System) := do
  let (result, k) ← allocproc text k
  match result with
  | none => return (-1, k)
  | some np =>
    let old ← pointer (k.procs p).pagetable
    let new ← pointer (k.procs np).pagetable
    let (code, ram) ← uvmcopy old new (k.procs p).sz k.ram
    let k := k.setRam ram
    if code < 0 then
      let k ← freeproc np k
      return (-1, k)
    else
      forkRest p np (k.setProc np { k.procs np with sz := (k.procs p).sz })

end Xv6Lottery.Vm
