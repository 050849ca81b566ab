import Xv6Lottery.Sleep.Machine

/-! pipe.c: one pipe and the calls of the processes that share it. fileclose()
calls pipeclose() for the last reference to an end, so the references to the
two ends are part of the state. -/

namespace Xv6Lottery.Pipes

open Sleep Function

def pipesize : Nat := 512

instance : NeZero pipesize := ⟨by decide⟩

structure Pipe where
  data : Fin pipesize → UInt8
  nread : UInt32
  nwrite : UInt32
  readopen : Bool
  writeopen : Bool

namespace Pipe

def alloc (page : Fin pipesize → UInt8) : Pipe := ⟨page, 0, 0, true, true⟩

def Empty (pipe : Pipe) : Prop := pipe.nread = pipe.nwrite

instance (pipe : Pipe) : Decidable pipe.Empty :=
  inferInstanceAs (Decidable (_ = _))

def Full (pipe : Pipe) : Prop :=
  pipe.nwrite = pipe.nread + UInt32.ofNat pipesize

instance (pipe : Pipe) : Decidable pipe.Full :=
  inferInstanceAs (Decidable (_ = _))

def cell (counter : UInt32) : Fin pipesize :=
  Fin.ofNat pipesize counter.toNat

def store (pipe : Pipe) (ch : UInt8) : Pipe :=
  { pipe with
    data := update pipe.data (cell pipe.nwrite) ch
    nwrite := pipe.nwrite + 1 }

def next (pipe : Pipe) : UInt8 := pipe.data (cell pipe.nread)

def advance (pipe : Pipe) : Pipe := { pipe with nread := pipe.nread + 1 }

end Pipe

inductive End where
  | read
  | write
  deriving DecidableEq

def Pipe.close (pipe : Pipe) : End → Pipe
  | .read => { pipe with readopen := false }
  | .write => { pipe with writeopen := false }

structure Shared (Process : Type) where
  pipe : Pipe
  /-- The processes with a descriptor for an end. -/
  openBy : End → Process → Bool
  /-- The bytes that pipewrite() has stored, in order. -/
  accepted : List UInt8 := []
  /-- The bytes that piperead() has copied out, in order. -/
  returned : List UInt8 := []

/-- The addresses of `pi->nread` and `pi->nwrite`. -/
inductive Channel where
  | nread
  | nwrite
  deriving DecidableEq

inductive Call where
  /-- The bytes that copyin() finds from `addr` on, as far as it succeeds. -/
  | pipewrite (n : Int) (source : Nat → Option UInt8)
  /-- Where copyout() succeeds from `addr` on. -/
  | piperead (n : Int) (sink : Nat → Bool)
  | close (side : End)
  | kill (pid : Nat)

def Call.Copies : Call → Prop
  | .pipewrite _ source => ∀ i, (source i).isSome = true
  | .piperead _ sink => ∀ i, sink i = true
  | _ => True

/-- Where a process is. In pipewrite(), `stored` tells if it has stored a byte
since it last called wakeup(&pi->nread). -/
inductive Point where
  /-- Outside, with what the last call returned. -/
  | home (result : Int)
  | entering (call : Call)
  -- pipewrite()
  | writing (n : Int) (source : Nat → Option UInt8)
  | writeTest (n : Int) (source : Nat → Option UInt8) (i : Nat) (stored : Bool)
  | writeKilled (n : Int) (source : Nat → Option UInt8) (i : Nat) (stored : Bool)
  | writeByte (n : Int) (source : Nat → Option UInt8) (i : Nat) (stored : Bool)
  | writeFull (n : Int) (source : Nat → Option UInt8) (i : Nat) (stored : Bool)
  | writeSleep (n : Int) (source : Nat → Option UInt8) (i : Nat)
  | writeWake (i : Nat)
  -- piperead()
  | reading (n : Int) (sink : Nat → Bool)
  | readTest (n : Int) (sink : Nat → Bool)
  | readKilled (n : Int) (sink : Nat → Bool)
  | readSleep (n : Int) (sink : Nat → Bool)
  | readByte (n : Int) (sink : Nat → Bool) (i : Nat)
  | readWake (i : Nat)
  /-- release() and return. -/
  | leaving (side : End) (result : Int)
  -- fileclose() and pipeclose()
  | closing (side : End)
  | closeFlag (side : End)
  | closeWake (side : End)
  | closeTest
  | closeLeave (last : Bool)
  /-- kfree() of the pipe: no process has an end of it any more. -/
  | freeing
  | killing (pid : Nat)

section Code

variable {Process : Type} [FinEnum Process]

/-- `f = p->ofile[fd]` for a descriptor of the end. -/
def argfd (side : End) (next : Point) (self : Process)
    (shared : Shared Process) : Shared Process × Point :=
  (shared, if shared.openBy side self then next else .home (-1))

/-- The critical section of fileclose(), for the last descriptor that the
process has for an end. -/
def fileclose (side : End) (self : Process) (shared : Shared Process) : Shared Process × Point :=
  if shared.openBy side self then
    let openBy := update shared.openBy side (update (shared.openBy side) self false)
    ({ shared with openBy := openBy }, if (FinEnum.toList Process).any (openBy side) then .home 0
      else .closing side)
  else
    (shared, .home (-1))

/-- `pi->nwrite == pi->nread + PIPESIZE`, and if not, the next byte. -/
def writeStep (n : Int) (source : Nat → Option UInt8) (i : Nat)
    (stored : Bool) (shared : Shared Process) : Shared Process × Point :=
  if shared.pipe.Full then
    (shared, .writeFull n source i stored)
  else
    match source i with
    | none => (shared, .writeWake i)
    | some ch =>
      ({ shared with
          pipe := shared.pipe.store ch
          accepted := shared.accepted ++ [ch] },
        .writeTest n source (i + 1) true)

/-- One round of the copying loop of piperead(). -/
def readStep (n : Int) (sink : Nat → Bool) (i : Nat)
    (shared : Shared Process) : Shared Process × Point :=
  if (i : Int) < n then
    if shared.pipe.Empty then
      (shared, .readWake i)
    else if sink i then
      ({ shared with
          pipe := shared.pipe.advance
          returned := shared.returned ++ [shared.pipe.next] },
        .readByte n sink (i + 1))
    else
      ({ shared with pipe := shared.pipe.advance }, .readWake i)
  else
    (shared, .readWake i)

/-- The code of a process that makes calls of the given kinds. -/
def code (allowed : Call → Prop) : Point → Instr Process Unit Channel (Shared Process) Point
  | .home _ => .choose fun next => ∃ call, allowed call ∧ next = .entering call
  | .entering (.pipewrite n source) =>
    .access (argfd .write (.writing n source))
  | .entering (.piperead n sink) => .access (argfd .read (.reading n sink))
  | .entering (.close side) => .access (fileclose side)
  | .entering (.kill pid) => .access fun _ shared => (shared, .killing pid)
  | .writing n source => .acquire () (.writeTest n source 0 false)
  | .writeTest n source i stored => .access fun _ shared =>
    (shared, if (i : Int) < n then
        if shared.pipe.readopen then .writeKilled n source i stored
        else .leaving .write (-1)
      else .writeWake i)
  | .writeKilled n source i stored => .killed fun killed =>
    if killed then .leaving .write (-1) else .writeByte n source i stored
  | .writeByte n source i stored => .access fun _ =>
    writeStep n source i stored
  | .writeFull n source i _ => .wakeup .nread (.writeSleep n source i)
  | .writeSleep n source i =>
    .sleep .nwrite () (.writeTest n source i false)
  | .writeWake i => .wakeup .nread (.leaving .write i)
  | .reading n sink => .acquire () (.readTest n sink)
  | .readTest n sink => .access fun _ shared =>
    (shared, if shared.pipe.Empty ∧ shared.pipe.writeopen = true then
        .readKilled n sink
      else .readByte n sink 0)
  | .readKilled n sink => .killed fun killed =>
    if killed then .leaving .read (-1) else .readSleep n sink
  | .readSleep n sink => .sleep .nread () (.readTest n sink)
  | .readByte n sink i => .access fun _ => readStep n sink i
  | .readWake i => .wakeup .nwrite (.leaving .read i)
  | .leaving _ result => .release () (.home result)
  | .closing side => .acquire () (.closeFlag side)
  | .closeFlag side => .access fun _ shared =>
    ({ shared with pipe := shared.pipe.close side }, .closeWake side)
  | .closeWake .write => .wakeup .nread .closeTest
  | .closeWake .read => .wakeup .nwrite .closeTest
  | .closeTest => .access fun _ shared =>
    (shared, .closeLeave (!shared.pipe.readopen && !shared.pipe.writeopen))
  | .closeLeave last => .release () (if last then .freeing else .home 0)
  | .freeing => .choose fun next => next = .home 0
  | .killing pid => .kill pid fun found => .home (if found then 0 else -1)

theorem sleeps_at {allowed : Call → Prop} (found : (code allowed point : Instr Process Unit Channel
      (Shared Process) Point) = .sleep chan lk next) :
    (∃ n sink, chan = .nread ∧ next = .readTest n sink) ∨ ∃ n source i, chan = .nwrite ∧ next =
      .writeTest n source i false := by
  cases point with
  | entering call => cases call <;> cases found
  | closeWake side => cases side <;> cases found
  | readSleep n sink =>
    cases found
    exact .inl ⟨n, sink, rfl, rfl⟩
  | writeSleep n source i =>
    cases found
    exact .inr ⟨n, source, i, rfl, rfl⟩
  | _ => cases found

end Code

end Xv6Lottery.Pipes
