import Xv6Lottery.Proc.Life

namespace Xv6Lottery

/-! The kernel thread of a process, cut at the spinlock operations of proc.c.
A section that acquires and releases one lock is one step; a lock that stays
held across steps is visible in the control point. Other spinlocks of the
kernel guard nothing that these functions read and are left out. -/

inductive Lock where
  | proc (slot : Slot)
  | wait
  deriving DecidableEq

/-- The call of sleep() a thread is in: the one of wait(), or one elsewhere
in the kernel on some other address. -/
inductive SleepSite where
  | wait
  | kernel (address : Nat)
  deriving DecidableEq

def SleepSite.chan (self : Slot) : SleepSite → Chan
  | .wait => .proc self
  | .kernel address => .other address

inductive Point where
  | code
  | forkret
  | dozing (site : SleepSite)
  | asleep (site : SleepSite)
  | kill (pid : BitVec 32) (remaining : List Slot)
  | alloc (remaining : List Slot)
  | copying (child : Slot)
  | adopting (child : Slot)
  | readying (child : Slot)
  | exiting (status : BitVec 32)
  | reparent (status : BitVec 32) (remaining : List Slot)
  -- wakeup(initproc) inside reparent() returns to its remaining slots;
  -- wakeup(p->parent) returns to exit().
  | waking (status : BitVec 32) (chan : Option Chan) (sleepers : List Slot)
      (remaining : Option (List Slot))
  | zombify (status : BitVec 32)
  | buried
  | dead
  | waiting
  | scan (remaining : List Slot) (havekids : Bool)
  | reaping (child : Slot)
  | scanned (havekids : Bool)
  | waitSleep
  deriving DecidableEq

/-- No spinlock is held, so that interrupts are on. -/
def Point.preemptible : Point → Bool
  | .code | .kill _ _ | .alloc _ | .adopting _ | .readying _ | .exiting _
  | .waiting => true
  | _ => false

structure Thread where
  point : Point
  yielded : Bool
  preempted : yielded = true → point.preemptible = true
  deriving DecidableEq

def Point.thread (point : Point) : Thread := ⟨point, false, nofun⟩

def Point.yieldedThread (point : Point) (free : point.preemptible = true) : Thread :=
  ⟨point, true, fun _ => free⟩

def SleepSite.after : SleepSite → Point
  | .wait => .waiting
  | .kernel _ => .code

/-! The locks a thread holds while a CPU executes it. -/

def Point.locks (self : Slot) : Point → List Lock
  | .forkret | .dozing _ | .asleep _ => [.proc self]
  | .copying child => [.proc child]
  | .reparent _ _ | .waking _ _ _ _ | .zombify _ | .scan _ _ | .scanned _
  | .waitSleep => [.wait]
  | .buried => [.wait, .proc self]
  | .reaping child => [.wait, .proc child]
  | .code | .kill _ _ | .alloc _ | .adopting _ | .readying _ | .exiting _
  | .dead | .waiting => []

def Thread.locks (self : Slot) (thread : Thread) : List Lock :=
  if thread.yielded then [.proc self] else thread.point.locks self

structure Move where
  event : LifeEvent := .quiet
  /-- The lock of a section that begins and ends in this step. -/
  passes : Option Lock := none
  acquires : Option Lock := none
  releases : List Lock := []
  /-- The step ends in the swtch() of sched(). -/
  switches : Bool := false

/-- A system call, as far as it has not touched the table yet. -/
inductive Call (self : Slot) : Point → Prop
  | kill : Call self (.kill pid slots)
  | fork : Call self (.alloc slots)
  | exit : self ≠ initproc → Call self (.exiting status)
  | wait : Call self .waiting

inductive ThreadStep (self : Slot) (table : ProcTable)
    (nextpid : BitVec 32) : Thread → Move → Thread → Prop
  -- yield(), from a timer interrupt wherever no lock is held
  | yield {point : Point} (free : point.preemptible = true) :
      ThreadStep self table nextpid point.thread
        { event := .yield self
          acquires := some (.proc self)
          switches := true } (point.yieldedThread free)
  | yielded {point : Point} (free : point.preemptible = true) :
      ThreadStep self table nextpid (point.yieldedThread free)
        { releases := [.proc self] } point.thread
  | forkret : ThreadStep self table nextpid Point.forkret.thread
        { releases := [.proc self] } Point.code.thread
  | call : Call self point → ThreadStep self table nextpid Point.code.thread {} point.thread
  | settickets : 1 ≤ count.toInt → ThreadStep self table nextpid Point.code.thread
        { event := .settickets self count
          passes := some (.proc self) } Point.code.thread
  | setsched : mode = 0 ∨ mode = 1 → ThreadStep self table nextpid Point.code.thread
        { event := .setsched mode } Point.code.thread
  | setkilled : ThreadStep self table nextpid Point.code.thread
        { event := .setkilled self
          passes := some (.proc self) } Point.code.thread
  -- sleep()
  | sleep : ThreadStep self table nextpid Point.code.thread { acquires := some (.proc self) }
        (Point.dozing (.kernel address)).thread
  | waitSleep : ThreadStep self table nextpid Point.waitSleep.thread
        { acquires := some (.proc self)
          releases := [.wait] } (Point.dozing .wait).thread
  | doze : ThreadStep self table nextpid (Point.dozing site).thread
        { event := .sleep self (site.chan self)
          switches := true } (Point.asleep site).thread
  | awake : ThreadStep self table nextpid (Point.asleep site).thread
        { event := .resume self
          releases := [.proc self] } site.after.thread
  -- kill()
  | killHit : (table slot).pid = pid → ThreadStep self table nextpid
        (Point.kill pid (slot :: remaining)).thread
        { event := .kill slot pid
          passes := some (.proc slot) } Point.code.thread
  | killMiss : (table slot).pid ≠ pid → ThreadStep self table nextpid
        (Point.kill pid (slot :: remaining)).thread
        { passes := some (.proc slot) } (Point.kill pid remaining).thread
  | killEnd : ThreadStep self table nextpid (Point.kill pid []).thread {} Point.code.thread
  -- fork() and allocproc()
  | allocHit : (table slot).state = .unused → ThreadStep self table nextpid
        (Point.alloc (slot :: remaining)).thread
        { event := .alloc self slot nextpid
          acquires := some (.proc slot) } (Point.copying slot).thread
  | allocMiss : (table slot).state ≠ .unused → ThreadStep self table nextpid
        (Point.alloc (slot :: remaining)).thread
        { passes := some (.proc slot) } (Point.alloc remaining).thread
  | allocEnd : ThreadStep self table nextpid (Point.alloc []).thread {} Point.code.thread
  | forkFails : ThreadStep self table nextpid (Point.copying child).thread
        { event := .abandon self child
          releases := [.proc child] } Point.code.thread
  | forkCopied : ThreadStep self table nextpid (Point.copying child).thread
        { releases := [.proc child] } (Point.adopting child).thread
  | adopt : ThreadStep self table nextpid (Point.adopting child).thread
        { event := .adopt self child
          passes := some .wait } (Point.readying child).thread
  | ready : ThreadStep self table nextpid (Point.readying child).thread
        { event := .ready self child
          passes := some (.proc child) } Point.code.thread
  -- exit() and reparent()
  | exitLock : ThreadStep self table nextpid (Point.exiting status).thread
        { acquires := some .wait } (Point.reparent status slots).thread
  | reparentHit : (table slot).parent = some self → ThreadStep self table nextpid
        (Point.reparent status (slot :: remaining)).thread { event := .reparent self slot }
        (Point.waking status (some (.proc initproc)) slots (some remaining)).thread
  | reparentMiss : (table slot).parent ≠ some self → ThreadStep self table nextpid
        (Point.reparent status (slot :: remaining)).thread {}
        (Point.reparent status remaining).thread
  | reparentEnd : ThreadStep self table nextpid (Point.reparent status []).thread {}
        (Point.waking status ((table self).parent.map .proc) slots none).thread
  | wake : slot ≠ self → ThreadStep self table nextpid
        (Point.waking status chan (slot :: sleepers) remaining).thread
        { event := .wakeup slot chan
          passes := some (.proc slot) } (Point.waking status chan sleepers remaining).thread
  | wakeSelf : ThreadStep self table nextpid
        (Point.waking status chan (self :: sleepers) remaining).thread {}
        (Point.waking status chan sleepers remaining).thread
  | reparentOn : ThreadStep self table nextpid
        (Point.waking status chan [] (some remaining)).thread {}
        (Point.reparent status remaining).thread
  | wakeEnd : ThreadStep self table nextpid (Point.waking status chan [] none).thread {}
        (Point.zombify status).thread
  | zombify : ThreadStep self table nextpid (Point.zombify status).thread
        { event := .exit self (table self).pid status
          acquires := some (.proc self) } Point.buried.thread
  | bury : ThreadStep self table nextpid Point.buried.thread
        { releases := [.wait]
          switches := true } Point.dead.thread
  -- wait()
  | waitLock : ThreadStep self table nextpid Point.waiting.thread
        { acquires := some .wait } (Point.scan slots false).thread
  | scanSkip : (table slot).parent ≠ some self → ThreadStep self table nextpid
        (Point.scan (slot :: remaining) havekids).thread {} (Point.scan remaining havekids).thread
  | scanAlive : (table slot).parent = some self → (table slot).state ≠ .zombie →
      ThreadStep self table nextpid (Point.scan (slot :: remaining) havekids).thread
        { passes := some (.proc slot) } (Point.scan remaining true).thread
  | scanZombie : (table slot).parent = some self → (table slot).state = .zombie →
      ThreadStep self table nextpid (Point.scan (slot :: remaining) havekids).thread
        { acquires := some (.proc slot) } (Point.reaping slot).thread
  | scanEnd : ThreadStep self table nextpid (Point.scan [] havekids).thread {}
        (Point.scanned havekids).thread
  | copyoutFails : ThreadStep self table nextpid (Point.reaping child).thread
        { event := .copyoutFailed self child
          releases := [.proc child, .wait] } Point.code.thread
  | reap : ThreadStep self table nextpid (Point.reaping child).thread
        { event := .reap self child (table child).pid (table child).xstate
          releases := [.proc child, .wait] } Point.code.thread
  | childless : ThreadStep self table nextpid (Point.scanned false).thread
        { releases := [.wait] } Point.code.thread
  | waitKilled : (table self).killed = true →
      ThreadStep self table nextpid (Point.scanned true).thread
        { passes := some (.proc self)
          releases := [.wait] } Point.code.thread
  | waitStays : (table self).killed = false →
      ThreadStep self table nextpid (Point.scanned true).thread
        { passes := some (.proc self) } Point.waitSleep.thread

end Xv6Lottery
