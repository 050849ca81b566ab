import Xv6Lottery.Pipe.Code

/-! The calls that ask killed() in a loop before they sleep: wait(),
piperead(), pipewrite(), sys_sleep() and consoleread(), with what wakes them
up. -/

namespace Xv6Lottery.Loops

open Sleep Function

inductive Spinlock where
  | waitLock
  | pipe
  | tickslock
  | cons
  deriving DecidableEq

instance : Fintype Spinlock where
  elems := {.waitLock, .pipe, .tickslock, .cons}
  complete := by rintro (_ | _ | _ | _) <;> decide

inductive Channel (Process : Type) where
  /-- wait() sleeps on the process itself. -/
  | proc (slot : Process)
  | pipe (chan : Pipes.Channel)
  | ticks
  | cons
  deriving DecidableEq

def inputBufSize : Nat := 128

instance : NeZero inputBufSize := ⟨by decide⟩

/-- `cons` of console.c: the read, the write and the edit index. -/
structure Console where
  buf : Fin inputBufSize → UInt8
  r : UInt32
  w : UInt32
  e : UInt32

def Console.char (cons : Console) (index : UInt32) : UInt8 :=
  cons.buf (Fin.ofNat inputBufSize index.toNat)

structure World (Process : Type) where
  parent : Process → Option Process
  /-- `p->xstate` of a ZOMBIE. -/
  zombie : Process → Option Int
  pid : Process → Nat
  pipe : Pipes.Shared Process
  ticks : UInt32
  cons : Console

inductive Place (Process : Type) where
  | home (result : Int)
  | pipe (point : Pipes.Point)
  -- wait(); `copies` tells if there is no address or copyout() succeeds.
  | waitEnter (copies : Bool)
  | waitScan (copies : Bool) (rest : List Process) (havekids : Bool)
  | waitKilled (copies : Bool) (self : Process)
  | waitSleep (copies : Bool) (self : Process)
  | waitLeave (result : Int)
  -- sys_sleep()
  | sleepEnter (n : UInt32)
  | sleepBegin (n : UInt32)
  | sleepTest (n ticks0 : UInt32)
  | sleepKilled (n ticks0 : UInt32)
  | sleepSleep (n ticks0 : UInt32)
  | sleepLeave (result : Int)
  -- consoleread(); `sink` tells where copyout() succeeds.
  | consEnter (target : Int) (sink : Int → Bool)
  | consMore (target n : Int) (sink : Int → Bool)
  | consTest (target n : Int) (sink : Int → Bool)
  | consKilled (target n : Int) (sink : Int → Bool)
  | consSleep (target n : Int) (sink : Int → Bool)
  | consByte (target n : Int) (sink : Int → Bool)
  | consLeave (result : Int)
  | killing (pid : Nat)
  -- exit()
  | exitEnter (status : Int)
  | exitLock (status : Int)
  | exitScan (status : Int) (rest : List Process)
  | exitAdopt (status : Int) (rest : List Process)
  | exitParent (status : Int)
  | exitWake (status : Int) (parent : Process)
  | exitZombie (status : Int)
  | exitLeave
  /-- A ZOMBIE, or a panic. -/
  | dead
  -- clockintr()
  | tickEnter
  | tickCount
  | tickWake
  | tickLeave
  -- consoleintr()
  | intrEnter (c : UInt8)
  | intrChar (c : UInt8)
  | intrWake
  | intrLeave

inductive Starts {Process : Type} : Place Process → Prop
  | pipe : Starts (.pipe (.entering call))
  | wait : Starts (.waitEnter copies)
  /-- `if(n < 0) n = 0` comes before the lock. -/
  | sys_sleep (n : Int) : Starts (.sleepEnter (UInt32.ofNat n.toNat))
  | consoleread : Starts (.consEnter n sink)
  | kill : Starts (.killing pid)
  | exit : Starts (.exitEnter status)
  | clockintr : Starts .tickEnter
  | consoleintr : Starts (.intrEnter c)

section Code

variable {Process : Type}

def Place.ofPipe : Pipes.Point → Place Process
  | .home result => .home result
  | point => .pipe point

def ofPipe : Instr Process Unit Pipes.Channel (Pipes.Shared Process) Pipes.Point →
      Instr Process Spinlock (Channel Process) (World Process) (Place Process)
  | .choose options => .choose fun next =>
    ∃ point, options point ∧ next = .ofPipe point
  | .acquire _ next => .acquire .pipe (.ofPipe next)
  | .release _ next => .release .pipe (.ofPipe next)
  | .sleep chan _ next => .sleep (.pipe chan) .pipe (.ofPipe next)
  | .wakeup chan next => .wakeup (.pipe chan) (.ofPipe next)
  | .killed next => .killed fun answer => .ofPipe (next answer)
  | .kill pid next => .kill pid fun answer => .ofPipe (next answer)
  | .access use => .access fun self world =>
    ({ world with pipe := (use self world.pipe).1 }, .ofPipe (use self world.pipe).2)

variable [FinEnum Process]

def waitStep (copies : Bool) (child : Process) (rest : List Process)
    (havekids : Bool) (self : Process) (world : World Process) : World Process × Place Process :=
  if world.parent child = some self then
    match world.zombie child with
    | none => (world, .waitScan copies rest true)
    | some _ =>
      if copies then
        -- freeproc(pp)
        ({ world with
            parent := update world.parent child none
            zombie := update world.zombie child none },
          .waitLeave (world.pid child))
      else (world, .waitLeave (-1))
  else
    (world, .waitScan copies rest havekids)

def consStep (target n : Int) (sink : Int → Bool) (world : World Process) :
    World Process × Place Process :=
  let c := world.cons.char world.cons.r
  let taken := { world with
    cons := { world.cons with r := world.cons.r + 1 } }
  -- C('D')
  if c = 4 then
    (if n < target then world else taken, .consLeave (target - n))
  else if sink (target - n) then
    (taken, if c = 10 then .consLeave (target - (n - 1))
      else .consMore target (n - 1) sink)
  else (taken, .consLeave (target - n))

/-- The `while` of C('U'): back to the last end of a line, or to `w`. -/
def Console.killLine (cons : Console) : Nat → Console
  | 0 => cons
  | fuel + 1 =>
    if cons.e ≠ cons.w ∧ cons.char (cons.e - 1) ≠ 10 then
      { cons with e := cons.e - 1 }.killLine fuel
    else cons

/-- The characters of consoleintr(); `true` if it wakes up consoleread(). -/
def Console.input (cons : Console) (c : UInt8) : Console × Bool :=
  -- C('P') prints the processes.
  if c = 16 then (cons, false)
  else if c = 21 then
    (cons.killLine (cons.e - cons.w).toNat, false)
  else if c = 8 ∨ c = 127 then
    (if cons.e ≠ cons.w then { cons with e := cons.e - 1 } else cons, false)
  else if c ≠ 0 ∧ cons.e - cons.r < UInt32.ofNat inputBufSize then
    let c := if c = 13 then 10 else c
    let stored := { cons with
      buf := update cons.buf (Fin.ofNat inputBufSize cons.e.toNat) c
      e := cons.e + 1 }
    if c = 10 ∨ c = 4 ∨ stored.e - stored.r = UInt32.ofNat inputBufSize then
      ({ stored with w := stored.e }, true)
    else (stored, false)
  else (cons, false)

def loops (initproc : Process) : Place Process →
      Instr Process Spinlock (Channel Process) (World Process) (Place Process)
  | .home _ => .choose Starts
  | .pipe point => ofPipe (Pipes.code (fun _ => True) point)
  | .waitEnter copies => .acquire .waitLock (.waitScan copies (FinEnum.toList Process) false)
  | .waitScan copies (child :: rest) havekids =>
    .access (waitStep copies child rest havekids)
  | .waitScan copies [] havekids => .access fun self world =>
    (world, if havekids then .waitKilled copies self
      else .waitLeave (-1))
  | .waitKilled copies self => .killed fun killed =>
    if killed then .waitLeave (-1) else .waitSleep copies self
  | .waitSleep copies self => .sleep (.proc self) .waitLock
      (.waitScan copies (FinEnum.toList Process) false)
  | .waitLeave result => .release .waitLock (.home result)
  | .sleepEnter n => .acquire .tickslock (.sleepBegin n)
  | .sleepBegin n => .access fun _ world =>
    (world, .sleepTest n world.ticks)
  | .sleepTest n ticks0 => .access fun _ world =>
    (world, if world.ticks - ticks0 < n then .sleepKilled n ticks0
      else .sleepLeave 0)
  | .sleepKilled n ticks0 => .killed fun killed =>
    if killed then .sleepLeave (-1) else .sleepSleep n ticks0
  | .sleepSleep n ticks0 => .sleep .ticks .tickslock (.sleepTest n ticks0)
  | .sleepLeave result => .release .tickslock (.home result)
  | .consEnter target sink => .acquire .cons (.consMore target target sink)
  | .consMore target n sink => .access fun _ world =>
    (world, if 0 < n then .consTest target n sink
      else .consLeave (target - n))
  | .consTest target n sink => .access fun _ world =>
    (world, if world.cons.r = world.cons.w then
        .consKilled target n sink
      else .consByte target n sink)
  | .consKilled target n sink => .killed fun killed =>
    if killed then .consLeave (-1) else .consSleep target n sink
  | .consSleep target n sink => .sleep .cons .cons (.consTest target n sink)
  | .consByte target n sink => .access fun _ => consStep target n sink
  | .consLeave result => .release .cons (.home result)
  | .killing pid => .kill pid fun found => .home (if found then 0 else -1)
  | .exitEnter status => .access fun self world =>
    (world, if self = initproc then .dead else .exitLock status)
  | .exitLock status => .acquire .waitLock (.exitScan status (FinEnum.toList Process))
  -- reparent()
  | .exitScan status (child :: rest) => .access fun self world =>
    if world.parent child = some self then
      ({ world with
          parent := update world.parent child (some initproc) },
        .exitAdopt status rest)
    else (world, .exitScan status rest)
  | .exitAdopt status rest =>
    .wakeup (.proc initproc) (.exitScan status rest)
  | .exitScan status [] => .access fun _ world => (world, .exitParent status)
  | .exitParent status => .access fun self world =>
    (world, match world.parent self with
      | some parent => .exitWake status parent
      | none => .exitZombie status)
  | .exitWake status parent =>
    .wakeup (.proc parent) (.exitZombie status)
  | .exitZombie status => .access fun self world =>
    ({ world with
        zombie := update world.zombie self (some status) },
      .exitLeave)
  | .exitLeave => .release .waitLock .dead
  | .dead => .choose fun _ => False
  | .tickEnter => .acquire .tickslock .tickCount
  | .tickCount => .access fun _ world =>
    ({ world with ticks := world.ticks + 1 }, .tickWake)
  | .tickWake => .wakeup .ticks .tickLeave
  | .tickLeave => .release .tickslock (.home 0)
  | .intrEnter c => .acquire .cons (.intrChar c)
  | .intrChar c => .access fun _ world =>
    ({ world with cons := (world.cons.input c).1 },
      if (world.cons.input c).2 then .intrWake else .intrLeave)
  | .intrWake => .wakeup .cons .intrLeave
  | .intrLeave => .release .cons (.home 0)

end Code

end Xv6Lottery.Loops
