import Xv6Lottery.Proc.Wait

namespace Xv6Lottery

/-! What wait() reports, over the history of a run. -/

namespace LifeEvent

def exited : LifeEvent → Option Slot
  | exit self _ _ => some self
  | _ => none

def reaped : LifeEvent → Option Slot
  | reap _ child _ _ => some child
  | _ => none

theorem zombie_record {event : LifeEvent} (legal : event.Legal table)
    (zombie : (table slot).state = .zombie) (kept : (event.apply table slot).state = .zombie) :
    (event.apply table slot).pid = (table slot).pid ∧ (event.apply table slot).xstate =
      (table slot).xstate ∧ event.exited ≠ some slot ∧ event.reaped ≠ some slot := by
  by_cases targets : event.target = some slot
  · rw [apply_target table targets] at kept ⊢
    cases event with
    | alloc =>
      cases targets
      cases legal.2.symm.trans zombie
    | exit =>
      cases targets
      cases legal.1.symm.trans zombie
    | abandon | reap => cases kept
    | _ => exact ⟨rfl, rfl, nofun, nofun⟩
  · rw [apply_other table targets]
    refine ⟨rfl, rfl, ?_, ?_⟩
    · cases event with
      | exit => exact targets
      | _ => nofun
    · cases event with
      | reap => exact targets
      | _ => nofun

end LifeEvent

namespace Machine

variable {Cpu : Type} {machine next : Machine Cpu} {labels : List (Cpu × LifeEvent)}

/-- The last that happened to the process in the slot is its exit(), with
this pid and status, and no wait() has reported it. -/
def Unreported (labels : List (Cpu × LifeEvent)) (slot : Slot) (pid status : BitVec 32) : Prop :=
  ∃ earlier cpu later, labels = earlier ++ (cpu, .exit slot pid status) :: later ∧
    ∀ label ∈ later, label.2.exited ≠ some slot ∧ label.2.reaped ≠ some slot

theorem Unreported.append (unreported : Unreported labels slot pid status)
    (notExited : label.2.exited ≠ some slot) (notReaped : label.2.reaped ≠ some slot) :
    Unreported (labels ++ [label]) slot pid status := by
  obtain ⟨earlier, cpu, later, rfl, spared⟩ := unreported
  refine ⟨earlier, cpu, later ++ [label], by simp, fun other member => ?_⟩
  rcases List.mem_append.mp member with old | last
  · exact spared other old
  · rw [List.mem_singleton.mp last]
    exact ⟨notExited, notReaped⟩

theorem Unreported.exit_between {first : Cpu × LifeEvent}
    (unreported : Unreported (earlier ++ first :: middle) slot pid status)
    (reports : first.2.reaped = some slot) : ∃ label ∈ middle, label.2.exited = some slot := by
  obtain ⟨before, cpu, later, split, spared⟩ := unreported
  rcases List.append_eq_append_iff.mp split with
    ⟨between, _, suffix⟩ | ⟨between, _, suffix⟩
  · cases between with
    | nil =>
      cases suffix
      cases reports
    | cons _ between =>
      cases suffix
      exact ⟨_, List.mem_append_right _ (.head _), rfl⟩
  · cases between with
    | nil =>
      cases suffix
      cases reports
    | cons _ between =>
      cases suffix
      exact absurd reports (spared first (List.mem_append_right _ (.head _))).2

variable [DecidableEq Cpu]

theorem Step.unreported (coherent : machine.Coherent) (taken : Step machine label next)
    (before : (machine.procs slot).state = .zombie →
      Unreported labels slot (machine.procs slot).pid (machine.procs slot).xstate)
    (zombie : (next.procs slot).state = .zombie) :
    Unreported (labels ++ [label]) slot (next.procs slot).pid (next.procs slot).xstate := by
  obtain ⟨cpu, event⟩ := label
  obtain ⟨legal, procs⟩ := taken.legal coherent
  rw [procs] at zombie ⊢
  rcases LifeEvent.edge_apply legal slot with same | edge
  · have earlier := same.symm.trans zombie
    obtain ⟨pid, xstate, notExited, notReaped⟩ :=
      LifeEvent.zombie_record legal earlier zombie
    rw [pid, xstate]
    exact (before earlier).append notExited notReaped
  · rw [zombie] at edge
    generalize (machine.procs slot).state = state at edge
    cases edge with
    | exit =>
      obtain ⟨_, _, rfl, _⟩ := legal
      rw [LifeEvent.apply_target machine.procs rfl]
      exact ⟨labels, cpu, [], rfl, nofun⟩

theorem run_unreported (run : Transition.Run (@Step Cpu _) boot labels machine) (slot : Slot)
    (zombie : (machine.procs slot).state = .zombie) :
    Unreported labels slot (machine.procs slot).pid (machine.procs slot).xstate := by
  refine run.history (fun labels machine =>
    (machine.procs slot).state = .zombie → Unreported labels slot (machine.procs slot).pid
        (machine.procs slot).xstate) ?_ ?_ zombie
  · intro zombie
    unfold boot ProcTable.userinit at zombie
    dsimp only at zombie
    split at zombie <;> cases zombie
  · intro past middle label after run before taken zombie
    exact taken.unreported (run_coherent run) before zombie

theorem Step.reap_unreported (run : Transition.Run (@Step Cpu _) boot labels machine)
    (taken : Step machine (cpu, .reap self child pid status) next) :
    Unreported labels child pid status := by
  obtain ⟨⟨zombie, _, rfl, rfl⟩, _⟩ := taken.legal (run_coherent run)
  exact run_unreported run child zombie

theorem Step.reap_proc (coherent : machine.Coherent)
    (taken : Step machine (cpu, .reap self child pid status) next) :
    machine.proc cpu = some self := by
  generalize event : (cpu, LifeEvent.reap self child pid status) = label at taken
  cases taken with
  | schedule moved =>
    cases event
    rcases moved.event_eq with same | same <;> cases same
  | dispatch | finish | wakeup => cases event
  | thread runs moved =>
    obtain ⟨rfl, reaps⟩ := Prod.mk.inj event
    rw [coherent.proc_eq, runs]
    refine congrArg some ?_
    by_contra differs
    exact moved.not_actor (Ne.symm differs) (by rw [← reaps]; rfl)

end Machine

end Xv6Lottery
