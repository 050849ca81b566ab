import Xv6Lottery.Proc.Table

namespace Xv6Lottery

/-! The life cycle of a process: what each lock-protected section of proc.c
writes to the table, without the control flow around it. -/

namespace Proc

def allocproc (pid : BitVec 32) (process : Proc) : Proc :=
  { process with pid := pid, state := .used, tickets := 10 }

def wakeup (chan : Option Chan) (process : Proc) : Proc :=
  { process with
    state :=
      if process.state = .sleeping ∧ process.chan = chan then .runnable
      else process.state }

def kill (process : Proc) : Proc :=
  { process with
    killed := true
    state := if process.state = .sleeping then .runnable else process.state }

def sleep (chan : Chan) (process : Proc) : Proc :=
  { process with chan := some chan, state := .sleeping }

def exit (status : BitVec 32) (process : Proc) : Proc :=
  { process with xstate := status, state := .zombie }

end Proc

inductive LifeEvent where
  | quiet
  | lotteryRound
  | setsched (mode : BitVec 32)
  | dispatch (self : Slot) (lottery : Bool)
  | yield (self : Slot)
  | sleep (self : Slot) (chan : Chan)
  | resume (self : Slot)
  | wakeup (slot : Slot) (chan : Option Chan)
  | kill (slot : Slot) (pid : BitVec 32)
  | setkilled (self : Slot)
  | settickets (self : Slot) (count : BitVec 32)
  | alloc (self child : Slot) (pid : BitVec 32)
  | abandon (self child : Slot)
  | adopt (self child : Slot)
  | ready (self child : Slot)
  | reparent (self slot : Slot)
  | exit (self : Slot) (pid status : BitVec 32)
  | copyoutFailed (self child : Slot)
  | reap (self child : Slot) (pid status : BitVec 32)
  deriving DecidableEq

namespace LifeEvent

def target : LifeEvent → Option Slot
  | quiet | lotteryRound | setsched _ | copyoutFailed _ _ => none
  | dispatch self _ | yield self | sleep self _ | resume self
  | setkilled self | settickets self _ | exit self _ _ => some self
  | wakeup slot _ | kill slot _ | reparent _ slot => some slot
  | alloc _ child _ | abandon _ child | adopt _ child | ready _ child
  | reap _ child _ _ => some child

def change : LifeEvent → Proc → Proc
  | quiet | lotteryRound | setsched _ | copyoutFailed _ _ => id
  | dispatch _ _ => ({ · with state := .running })
  | yield _ => ({ · with state := .runnable })
  | sleep _ chan => Proc.sleep chan
  | resume _ => ({ · with chan := none })
  | wakeup _ chan => Proc.wakeup chan
  | kill _ _ => Proc.kill
  | setkilled _ => ({ · with killed := true })
  | settickets _ count => ({ · with tickets := count })
  | alloc _ _ pid => Proc.allocproc pid
  | abandon _ _ => Proc.freeproc
  | adopt self _ => ({ · with parent := some self })
  | ready _ _ => ({ · with state := .runnable })
  | reparent _ _ => ({ · with parent := some initproc })
  | exit _ _ status => Proc.exit status
  | reap _ _ _ _ => Proc.freeproc

def apply (event : LifeEvent) (table : ProcTable) : ProcTable := fun slot =>
  if event.target = some slot then event.change (table slot) else table slot

def actor : LifeEvent → Option Slot
  | adopt self _ | reparent self _ | reap self _ _ _ => some self
  | _ => none

/-- The child that fork() is building. -/
def builds : LifeEvent → Option Slot
  | abandon _ child | adopt _ child | ready _ child => some child
  | _ => none

/-- The process that the section takes out of RUNNING. -/
def leaves : LifeEvent → Option Slot
  | yield self | sleep self _ | exit self _ _ => some self
  | _ => none

/-- What holds of the table whenever the section runs. -/
def Legal (table : ProcTable) : LifeEvent → Prop
  | quiet | lotteryRound | setsched _ | wakeup _ _ => True
  | dispatch self _ => (table self).state = .runnable
  | yield self | sleep self _ | resume self | setkilled self =>
    (table self).state = .running
  | kill slot pid => (table slot).pid = pid
  | settickets self count =>
    (table self).state = .running ∧ 1 ≤ count.toInt
  | alloc self child _ =>
    (table self).state = .running ∧ (table child).state = .unused
  | abandon _ child =>
    (table child).state = .used ∧ (table child).parent = none
  | adopt self child =>
    (table self).state = .running ∧ (table child).state = .used ∧ (table child).parent = none
  | ready self child =>
    (table child).state = .used ∧ (table child).parent = some self
  | reparent self slot =>
    (table self).state = .running ∧ (table slot).parent = some self
  | exit self pid _ =>
    (table self).state = .running ∧ self ≠ initproc ∧
      (table self).pid = pid ∧ ∀ slot, (table slot).parent ≠ some self
  | copyoutFailed self child =>
    (table child).state = .zombie ∧ (table child).parent = some self
  | reap self child pid status =>
    (table child).state = .zombie ∧ (table child).parent = some self ∧
      (table child).pid = pid ∧ (table child).xstate = status

theorem apply_target {event : LifeEvent} (table : ProcTable) (targets : event.target = some slot) :
    event.apply table slot = event.change (table slot) :=
  if_pos targets

theorem apply_other {event : LifeEvent} (table : ProcTable) (differs : event.target ≠ some slot) :
    event.apply table slot = table slot :=
  if_neg differs

/-! The edges of the state diagram of one slot. -/

inductive Edge (slot : Slot) : LifeEvent → ProcState → ProcState → Prop
  | dispatch : Edge slot (.dispatch slot lottery) .runnable .running
  | yield : Edge slot (.yield slot) .running .runnable
  | sleep : Edge slot (.sleep slot chan) .running .sleeping
  | wakeup : Edge slot (.wakeup slot chan) .sleeping .runnable
  | kill : Edge slot (.kill slot pid) .sleeping .runnable
  | alloc : Edge slot (.alloc self slot pid) .unused .used
  | abandon : Edge slot (.abandon self slot) .used .unused
  | ready : Edge slot (.ready self slot) .used .runnable
  | exit : Edge slot (.exit slot pid status) .running .zombie
  | reap : Edge slot (.reap self slot pid status) .zombie .unused

theorem wakeup_state (chan : Option Chan) (process : Proc) :
    (process.wakeup chan).state = process.state ∨ process.state = .sleeping ∧
      (process.wakeup chan).state = .runnable := by
  by_cases sleeps : process.state = .sleeping ∧ process.chan = chan
  · exact .inr ⟨sleeps.1, if_pos sleeps⟩
  · exact .inl (if_neg sleeps)

theorem kill_state (process : Proc) :
    process.kill.state = process.state ∨ process.state = .sleeping ∧ process.kill.state =
      .runnable := by
  by_cases asleep : process.state = .sleeping
  · exact .inr ⟨asleep, if_pos asleep⟩
  · exact .inl (if_neg asleep)

theorem edge_change (legal : event.Legal table) (targets : event.target = some slot) :
    (event.change (table slot)).state = (table slot).state ∨
      Edge slot event (table slot).state (event.change (table slot)).state := by
  cases event with
  | quiet | lotteryRound | setsched | copyoutFailed => cases targets
  | dispatch self lottery =>
    cases targets
    right
    rw [show (table slot).state = .runnable from legal]
    exact .dispatch
  | yield self =>
    cases targets
    right
    rw [show (table slot).state = .running from legal]
    exact .yield
  | sleep self chan =>
    cases targets
    right
    rw [show (table slot).state = .running from legal]
    exact .sleep
  | wakeup slot chan =>
    cases targets
    rcases wakeup_state chan (table slot) with same | ⟨asleep, woken⟩
    · exact .inl same
    · right
      rw [asleep, change, woken]
      exact .wakeup
  | kill slot pid =>
    cases targets
    rcases kill_state (table slot) with same | ⟨asleep, woken⟩
    · exact .inl same
    · right
      rw [asleep, change, woken]
      exact .kill
  | alloc self child pid =>
    cases targets
    right
    rw [legal.2]
    exact .alloc
  | abandon self child =>
    cases targets
    right
    rw [legal.1]
    exact .abandon
  | ready self child =>
    cases targets
    right
    rw [legal.1]
    exact .ready
  | exit self pid status =>
    cases targets
    right
    rw [legal.1]
    exact .exit
  | reap self child pid status =>
    cases targets
    right
    rw [legal.1]
    exact .reap
  | resume | setkilled | settickets | adopt | reparent => exact .inl rfl

theorem edge_apply {event : LifeEvent} (legal : event.Legal table) (slot : Slot) :
    (event.apply table slot).state = (table slot).state ∨
      Edge slot event (table slot).state (event.apply table slot).state := by
  by_cases targets : event.target = some slot
  · rw [apply_target table targets]
    exact edge_change legal targets
  · exact .inl (congrArg Proc.state (apply_other table targets))

theorem wakeup_apply_state (awake : (table other).state ≠ .sleeping) :
    ((wakeup slot chan).apply table other).state = (table other).state := by
  by_cases targets : (wakeup slot chan).target = some other
  · rw [apply_target table targets]
    rcases wakeup_state chan (table other) with same | ⟨asleep, _⟩
    · exact same
    · exact absurd asleep awake
  · exact congrArg Proc.state (apply_other table targets)

theorem running_apply {event : LifeEvent} (legal : event.Legal table)
    (running : (table slot).state = .running) (stays : event.leaves ≠ some slot) :
    (event.apply table slot).state = .running := by
  rcases edge_apply legal slot with same | edge
  · exact same.trans running
  · rw [running] at edge
    generalize (event.apply table slot).state = after at edge
    cases edge <;> exact absurd rfl stays

/-! The writers of the other fields. -/

theorem parent_apply (event : LifeEvent) (table : ProcTable) (slot : Slot) :
    (event.apply table slot).parent = (table slot).parent ∨
      (∃ self, event = .adopt self slot ∧ (event.apply table slot).parent = some self) ∨
      (∃ self, event = .reparent self slot ∧ (event.apply table slot).parent = some initproc) ∨
      (event.apply table slot).parent = none ∧ (event.apply table slot).state = .unused := by
  by_cases targets : event.target = some slot
  · rw [apply_target table targets]
    cases event with
    | adopt self child =>
      cases targets
      exact .inr (.inl ⟨self, rfl, rfl⟩)
    | reparent self child =>
      cases targets
      exact .inr (.inr (.inl ⟨self, rfl, rfl⟩))
    | abandon | reap => exact .inr (.inr (.inr ⟨rfl, rfl⟩))
    | _ => exact .inl rfl
  · exact .inl (congrArg Proc.parent (apply_other table targets))

theorem chan_apply {event : LifeEvent} (legal : event.Legal table)
    (asleep : (table slot).state = .sleeping) :
    (event.apply table slot).chan = (table slot).chan := by
  by_cases targets : event.target = some slot
  · rw [apply_target table targets]
    cases event with
    | sleep | resume =>
      cases targets
      cases legal.symm.trans asleep
    | abandon | reap =>
      cases targets
      cases legal.1.symm.trans asleep
    | _ => rfl
  · exact congrArg Proc.chan (apply_other table targets)

def Clean (table : ProcTable) : Prop :=
  ∀ slot, (table slot).state = .unused → (table slot).parent = none

theorem clean_apply {event : LifeEvent} (clean : Clean table)
    (legal : event.Legal table) : Clean (event.apply table) := by
  intro slot unused
  rcases event.parent_apply table slot with
    same | ⟨self, rfl, _⟩ | ⟨self, rfl, _⟩ | ⟨freed, _⟩
  · rw [same]
    rcases edge_apply legal slot with kept | edge
    · exact clean slot (kept.symm.trans unused)
    · rw [unused] at edge
      generalize (table slot).state = before at edge
      cases edge with
      | abandon => exact legal.2
      | reap =>
        rw [apply_target table rfl] at same
        exact same.symm
  · rw [apply_target table rfl] at unused
    cases legal.2.1.symm.trans unused
  · rw [apply_target table rfl] at unused
    cases legal.2.symm.trans (clean slot unused)
  · exact freed

/-! What a section leaves alone. -/

section Stable

variable {table : ProcTable} {event : LifeEvent} (legal : event.Legal table)

include legal

theorem used_stable (used : (table child).state = .used) (notBuilt : event.builds ≠ some child) :
    (event.apply table child).state = .used := by
  rcases edge_apply legal child with same | edge
  · exact same.trans used
  · rw [used] at edge
    generalize (event.apply table child).state = after at edge
    cases edge with
    | abandon => exact absurd rfl notBuilt
    | ready => exact absurd rfl notBuilt

theorem childless_stable (notInit : self ≠ initproc) (notActor : event.actor ≠ some self)
    (other : (table slot).parent ≠ some self) : (event.apply table slot).parent ≠ some self := by
  rcases event.parent_apply table slot with
    same | ⟨adopter, rfl, adopted⟩ | ⟨exiting, rfl, moved⟩ | ⟨freed, _⟩
  · rw [same]
    exact other
  · rw [adopted]
    exact notActor
  · rw [moved]
    intro init
    exact notInit (Option.some.inj init).symm
  · rw [freed]
    nofun

theorem parent_stable (parent : (table child).parent = some self)
    (notActor : event.actor ≠ some self) (notAdopted : ∀ adopter, event ≠ .adopt adopter child)
    (kept : (event.apply table child).state ≠ .unused) :
    (event.apply table child).parent = some self := by
  rcases event.parent_apply table child with
    same | ⟨adopter, rfl, _⟩ | ⟨exiting, rfl, _⟩ | ⟨_, unused⟩
  · exact same.trans parent
  · exact absurd rfl (notAdopted adopter)
  · exact absurd (legal.2.symm.trans parent) notActor
  · exact absurd unused kept

theorem orphan_stable (parent : (table child).parent = none)
    (notBuilt : event.builds ≠ some child) : (event.apply table child).parent = none := by
  rcases event.parent_apply table child with
    same | ⟨adopter, rfl, _⟩ | ⟨exiting, rfl, _⟩ | ⟨freed, _⟩
  · exact same.trans parent
  · exact absurd rfl notBuilt
  · cases legal.2.symm.trans parent
  · exact freed

theorem zombie_stable (zombie : (table child).state = .zombie)
    (parent : (table child).parent = some self) (notActor : event.actor ≠ some self) :
    (event.apply table child).state = .zombie := by
  rcases edge_apply legal child with same | edge
  · exact same.trans zombie
  · rw [zombie] at edge
    generalize (event.apply table child).state = after at edge
    cases edge with
    | reap => exact absurd (legal.2.1.symm.trans parent) notActor

end Stable

end LifeEvent

end Xv6Lottery
