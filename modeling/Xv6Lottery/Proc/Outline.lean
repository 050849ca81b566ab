import Xv6Lottery.Proc.Thread

namespace Xv6Lottery

/-! The proof outline of a kernel thread: what holds of the table at each of
its control points, and how the point agrees with the process state. -/

def Point.child : Point → Option Slot
  | .copying child | .adopting child | .readying child => some child
  | _ => none

def Point.Asserts (self : Slot) (table : ProcTable) : Point → Prop
  | .copying child | .adopting child =>
    (table child).state = .used ∧ (table child).parent = none
  | .readying child =>
    (table child).state = .used ∧ (table child).parent = some self
  | .reaping child =>
    (table child).state = .zombie ∧ (table child).parent = some self
  | .exiting _ => self ≠ initproc
  | .reparent _ remaining | .waking _ _ _ (some remaining) =>
    self ≠ initproc ∧ ∀ slot, slot ∉ remaining → (table slot).parent ≠ some self
  | .waking _ _ _ none | .zombify _ | .buried | .dead =>
    self ≠ initproc ∧ ∀ slot, (table slot).parent ≠ some self
  | _ => True

theorem Point.Asserts.child_used {point : Point} {child : Slot}
    (asserts : point.Asserts self table) (building : point.child = some child) :
    (table child).state = .used := by
  cases point with
  | copying | adopting | readying =>
    cases building
    exact asserts.1
  | _ => cases building

/-- The state of a process whose thread a CPU is executing. -/
def Thread.current (thread : Thread) : ProcState :=
  match thread.point with
  | .buried => .zombie
  | _ => .running

def Thread.Resumable (thread : Thread) : Prop :=
  thread.yielded = true ∨ thread = Point.forkret.thread ∨
    ∃ site, thread = (Point.asleep site).thread

/-- How a thread that no CPU executes agrees with its process. -/
def Thread.Suspended (slot : Slot) (process : Proc) (thread : Thread) :
    Prop :=
  match process.state with
  | .unused => True
  | .used => thread = Point.forkret.thread
  | .sleeping => ∃ site, thread = (Point.asleep site).thread ∧ process.chan = some (site.chan slot)
  | .runnable => thread.Resumable
  | .running => False
  | .zombie => thread = Point.dead.thread

@[simp] theorem Thread.locks_thread (point : Point) :
    point.thread.locks self = point.locks self := rfl

@[simp] theorem Thread.locks_yieldedThread (point : Point) (free : point.preemptible = true) :
    (point.yieldedThread free).locks self = [.proc self] := rfl

theorem SleepSite.locks_after (site : SleepSite) : site.after.locks self = [] := by
  cases site <;> rfl

theorem Call.locks_eq (called : Call self point) : point.locks self = [] := by
  cases called <;> rfl

theorem Point.locks_of_preemptible {point : Point} (self : Slot)
    (free : point.preemptible = true) : point.locks self = [] := by
  cases point <;> first | rfl | cases free

theorem Point.current_of_preemptible {point : Point}
    (free : point.preemptible = true) : point.thread.current = .running := by
  cases point <;> first | rfl | cases free

theorem Thread.Resumable.current_eq {thread : Thread}
    (resumable : thread.Resumable) : thread.current = .running := by
  rcases resumable with yielded | rfl | ⟨site, rfl⟩
  · exact Point.current_of_preemptible (thread.preempted yielded)
  · rfl
  · rfl

theorem Thread.Resumable.locks_eq {thread : Thread} (self : Slot)
    (resumable : thread.Resumable) : thread.locks self = [.proc self] := by
  rcases resumable with yielded | rfl | ⟨site, rfl⟩
  · rw [Thread.locks, if_pos yielded]
  · rfl
  · rfl

theorem Thread.current_cases (thread : Thread) :
    thread.current = .running ∨ thread.current = .zombie ∧ thread = Point.buried.thread := by
  obtain ⟨point, yielded, preempted⟩ := thread
  cases point with
  | buried =>
    cases yielded with
    | false => exact .inr ⟨rfl, rfl⟩
    | true => cases preempted rfl
  | _ => exact .inl rfl

/-! Sections run for other processes leave an assertion true. -/

namespace Point

theorem Asserts.stable {point : Point} {event : LifeEvent} (asserts : point.Asserts self table)
    (legal : event.Legal table) (notActor : event.actor ≠ some self)
    (notBuilt : ∀ child, point.child = some child → event.builds ≠ some child) :
    point.Asserts self (event.apply table) := by
  cases point with
  | copying child | adopting child =>
    exact ⟨LifeEvent.used_stable legal asserts.1 (notBuilt child rfl),
      LifeEvent.orphan_stable legal asserts.2 (notBuilt child rfl)⟩
  | readying child =>
    have used := LifeEvent.used_stable legal asserts.1 (notBuilt child rfl)
    refine ⟨used, LifeEvent.parent_stable legal asserts.2 notActor ?_ ?_⟩
    · rintro adopter rfl
      exact notBuilt child rfl rfl
    · rw [used]
      nofun
  | reaping child =>
    have zombie :=
      LifeEvent.zombie_stable legal asserts.1 asserts.2 notActor
    refine ⟨zombie, LifeEvent.parent_stable legal asserts.2 notActor ?_ ?_⟩
    · rintro adopter rfl
      cases legal.2.1.symm.trans asserts.1
    · rw [zombie]
      nofun
  | exiting status => exact asserts
  | reparent status remaining =>
    exact ⟨asserts.1, fun slot outside =>
      LifeEvent.childless_stable legal asserts.1 notActor (asserts.2 slot outside)⟩
  | waking status chan sleepers remaining =>
    cases remaining with
    | none =>
      exact ⟨asserts.1, fun slot =>
        LifeEvent.childless_stable legal asserts.1 notActor (asserts.2 slot)⟩
    | some remaining =>
      exact ⟨asserts.1, fun slot outside =>
        LifeEvent.childless_stable legal asserts.1 notActor (asserts.2 slot outside)⟩
  | zombify | buried | dead =>
    exact ⟨asserts.1, fun slot =>
      LifeEvent.childless_stable legal asserts.1 notActor (asserts.2 slot)⟩
  | _ => trivial

end Point

theorem Thread.Suspended.stable {thread : Thread} {event : LifeEvent}
    (suspended : thread.Suspended slot (table slot)) (legal : event.Legal table)
    (notDispatched : ∀ lottery, event ≠ .dispatch slot lottery)
    (notAllocated : ∀ self pid, event ≠ .alloc self slot pid) :
    thread.Suspended slot (event.apply table slot) := by
  rcases LifeEvent.edge_apply legal slot with same | edge
  · unfold Suspended at suspended ⊢
    rw [same]
    cases state : (table slot).state with
    | sleeping =>
      rw [state] at suspended
      obtain ⟨site, waits, chan⟩ := suspended
      exact ⟨site, waits, (LifeEvent.chan_apply legal state).trans chan⟩
    | _ =>
      rw [state] at suspended
      exact suspended
  · unfold Suspended at suspended ⊢
    generalize (event.apply table slot).state = after at edge ⊢
    generalize (table slot).state = before at suspended edge
    cases edge with
    | dispatch => exact absurd rfl (notDispatched _)
    | yield | sleep | exit => exact suspended.elim
    | wakeup | kill =>
      obtain ⟨site, waits, _⟩ := suspended
      exact .inr (.inr ⟨site, waits⟩)
    | alloc => exact absurd rfl (notAllocated _ _)
    | ready => exact .inr (.inl suspended)
    | abandon | reap => trivial

namespace ThreadStep

variable {self : Slot} {table : ProcTable} {nextpid : BitVec 32}
  {before after : Thread} {move : Move}

/-! The locks that a step says it takes and gives up are the difference of
the locks at its two ends; a step into sched() leaves the CPU with
`p->lock`. -/

def heldAfter (self : Slot) (move : Move) (after : Thread) : List Lock :=
  if move.switches then [.proc self] else after.locks self

theorem mem_heldAfter (taken : ThreadStep self table nextpid before move after) (lock : Lock) :
    lock ∈ heldAfter self move after ↔ move.acquires = some lock ∨ lock ∈ before.locks self ∧
      lock ∉ move.releases := by
  cases taken with
  | yield free =>
    simp [heldAfter, Point.locks_of_preemptible self free, eq_comm]
  | yielded free =>
    simp [heldAfter, Point.locks_of_preemptible self free]
  | call called =>
    have unlocked : Point.code.locks self = [] := rfl
    simp [heldAfter, called.locks_eq, unlocked]
  | @awake site =>
    have locked : (Point.asleep site).locks self = [.proc self] := rfl
    simp [heldAfter, SleepSite.locks_after, locked]
  | _ => simp [heldAfter, Point.locks] <;> grind

theorem mem_locks_of_mem_releases (taken : ThreadStep self table nextpid before move after)
    (released : lock ∈ move.releases) : lock ∈ before.locks self := by
  cases taken <;> simp [Point.locks] at released ⊢ <;> grind

/-! What a step may rely on: the state that goes with its point, and the
assertion of the point. -/

section

variable (taken : ThreadStep self table nextpid before move after)

include taken

theorem legal
    (current : (table self).state = before.current) (asserts : before.point.Asserts self table) :
    move.event.Legal table := by
  cases taken with
  | yield free => exact current.trans (Point.current_of_preemptible free)
  | settickets positive => exact ⟨current, positive⟩
  | setkilled => exact current
  | doze => exact current
  | awake => exact current
  | killHit found => exact found
  | allocHit unused => exact ⟨current, unused⟩
  | forkFails => exact asserts
  | adopt => exact ⟨current, asserts⟩
  | ready => exact asserts
  | reparentHit child => exact ⟨current, child⟩
  | zombify => exact ⟨current, asserts.1, rfl, asserts.2⟩
  | copyoutFails => exact asserts
  | reap => exact ⟨asserts.1, asserts.2, rfl, rfl⟩
  | _ => trivial

theorem state_after
    (current : (table self).state = before.current) (asserts : before.point.Asserts self table)
    (stays : move.switches = false) : (move.event.apply table self).state = after.current := by
  have legal := taken.legal current asserts
  have running : (table self).state = .running → move.event.leaves ≠ some self →
      (move.event.apply table self).state = .running :=
    LifeEvent.running_apply legal
  cases taken with
  | yield => cases stays
  | doze => cases stays
  | bury => cases stays
  | zombify => exact congrArg Proc.state (LifeEvent.apply_target table rfl)
  | yielded free =>
    rw [Point.current_of_preemptible free]
    exact running (current.trans (Point.current_of_preemptible free)) nofun
  | call called =>
    refine (running current nofun).trans ?_
    cases called <;> rfl
  | @awake site =>
    refine (running current nofun).trans ?_
    cases site <;> rfl
  | _ => exact running current nofun

theorem suspended_after
    (current : (table self).state = before.current) (switches : move.switches = true) :
    after.Suspended self (move.event.apply table self) := by
  cases taken with
  | yield free =>
    rw [LifeEvent.apply_target table rfl]
    exact .inl rfl
  | @doze site =>
    rw [LifeEvent.apply_target table rfl]
    exact ⟨site, rfl, rfl⟩
  | bury =>
    unfold Thread.Suspended
    rw [show (LifeEvent.apply .quiet table self).state = .zombie from current]
  | _ => cases switches

end

theorem not_actor (differs : other ≠ self)
    (taken : ThreadStep self table nextpid before move after) : move.event.actor ≠ some other := by
  cases taken with
  | adopt | reparentHit | reap =>
    intro same
    exact differs (Option.some.inj same).symm
  | _ => nofun

theorem not_leaves (differs : other ≠ self)
    (taken : ThreadStep self table nextpid before move after) : move.event.leaves ≠ some other := by
  cases taken with
  | yield | doze | zombify =>
    intro same
    exact differs (Option.some.inj same).symm
  | _ => nofun

section

variable (taken : ThreadStep self table nextpid before move after)

include taken

theorem not_dispatch :
    move.event ≠ .dispatch slot lottery := by
  cases taken <;> nofun

theorem not_lotteryRound :
    move.event ≠ .lotteryRound := by
  cases taken <;> nofun

theorem builds_child
    (built : move.event.builds = some child) : before.point.child = some child := by
  cases taken with
  | forkFails | adopt | ready => exact built
  | _ => cases built

theorem reap_before
    (reaps : move.event = .reap parent child pid status) :
    before = (Point.reaping child).thread := by
  cases taken with
  | reap =>
    cases reaps
    rfl
  | _ => cases reaps

theorem child_after
    (building : after.point.child = some child) :
    before.point.child = some child ∨ ∃ pid, move.event = .alloc self child pid := by
  cases taken with
  | allocHit =>
    cases building
    exact .inr ⟨nextpid, rfl⟩
  | yield | yielded | forkCopied | adopt => exact .inl building
  | call called => cases called <;> cases building
  | @awake site => cases site <;> cases building
  | _ => cases building

theorem asserts_after
    (current : (table self).state = before.current) (asserts : before.point.Asserts self table)
    (clean : LifeEvent.Clean table) : after.point.Asserts self (move.event.apply table) := by
  have legal := taken.legal current asserts
  cases taken with
  | yield => exact asserts.stable legal nofun nofun
  | yielded => exact asserts
  | call called =>
    cases called with
    | exit notInit => exact notInit
    | _ => trivial
  | @awake site => cases site <;> trivial
  | allocHit unused =>
    refine ⟨congrArg Proc.state (LifeEvent.apply_target table rfl), ?_⟩
    rw [LifeEvent.apply_target table rfl]
    exact clean _ unused
  | forkCopied => exact asserts
  | adopt =>
    refine ⟨?_, congrArg Proc.parent (LifeEvent.apply_target table rfl)⟩
    rw [LifeEvent.apply_target table rfl]
    exact asserts.1
  | exitLock =>
    exact ⟨asserts, fun slot outside => absurd (mem_slots slot) outside⟩
  | @reparentHit slot status remaining child =>
    refine ⟨asserts.1, fun other outside => ?_⟩
    by_cases same : other = slot
    · rw [same, LifeEvent.apply_target table rfl]
      intro init
      exact asserts.1 (Option.some.inj init).symm
    · have untouched : (LifeEvent.reparent self slot).target ≠ some other :=
        fun target => same (Option.some.inj target).symm
      rw [LifeEvent.apply_other table untouched]
      exact asserts.2 other (by simp [same, outside])
  | @reparentMiss slot status remaining foreign =>
    refine ⟨asserts.1, fun other outside => ?_⟩
    by_cases same : other = slot
    · rw [same]
      exact foreign
    · exact asserts.2 other (by simp [same, outside])
  | reparentEnd =>
    exact ⟨asserts.1, fun slot => asserts.2 slot List.not_mem_nil⟩
  | @wake slot status chan sleepers remaining _ =>
    cases remaining <;> exact asserts.stable legal nofun nofun
  | @wakeSelf status chan sleepers remaining =>
    cases remaining <;> exact asserts
  | reparentOn | wakeEnd | bury => exact asserts
  | zombify => exact asserts.stable legal nofun nofun
  | scanZombie child zombie => exact ⟨zombie, child⟩
  | _ => trivial

end

end ThreadStep

end Xv6Lottery
