import Xv6Lottery.Lib.Forest
import Xv6Lottery.Proc.Coherent

namespace Xv6Lottery

/-! The parent pointers of the table. -/

namespace ProcState

def Alive : ProcState → Prop
  | .runnable | .running | .sleeping => True
  | .unused | .used | .zombie => False

def Born : ProcState → Prop
  | .runnable | .running | .sleeping | .zombie => True
  | .unused | .used => False

theorem Alive.born {state : ProcState} (alive : state.Alive) : state.Born := by
  cases state with
  | unused | used | zombie => exact alive.elim
  | _ => trivial

end ProcState

structure Family (table : ProcTable) : Prop where
  init_alive : (table initproc).state.Alive
  parent_alive : ∀ {child parent}, (table child).parent = some parent → (table parent).state.Alive
  parented : ∀ {slot}, slot ≠ initproc → (table slot).state.Born → (table slot).parent ≠ none
  rooted : ∀ {slot}, (table slot).parent ≠ none →
    Forest.Rooted (fun slot => (table slot).parent) initproc slot

namespace LifeEvent

theorem alive_apply {event : LifeEvent} (legal : event.Legal table)
    (alive : (table slot).state.Alive) (stays : ∀ pid status, event ≠ .exit slot pid status) :
    (event.apply table slot).state.Alive := by
  rcases edge_apply legal slot with same | edge
  · rw [same]
    exact alive
  · generalize (event.apply table slot).state = after at edge ⊢
    generalize (table slot).state = before at alive edge
    cases edge with
    | exit => exact absurd rfl (stays _ _)
    | alloc | abandon | ready | reap => exact alive.elim
    | dispatch | sleep | yield | wakeup | kill => trivial

theorem parented_before {event : LifeEvent} (family : Family table) (legal : event.Legal table)
    (other : slot ≠ initproc) (born : (event.apply table slot).state.Born) :
    (table slot).parent ≠ none := by
  rcases edge_apply legal slot with same | edge
  · rw [same] at born
    exact family.parented other born
  · have parented := @family.parented slot other
    generalize (event.apply table slot).state = after at born edge
    generalize (table slot).state = before at parented edge
    cases edge with
    | dispatch | yield | sleep | exit | wakeup | kill =>
      exact parented trivial
    | ready =>
      rw [legal.2]
      nofun
    | alloc | abandon | reap => exact born.elim

section Family

variable {event : LifeEvent} (family : Family table) (legal : event.Legal table)

include family legal

theorem init_alive_apply : (event.apply table initproc).state.Alive := by
  refine alive_apply legal family.init_alive ?_
  rintro pid status rfl
  exact legal.2.1 rfl

theorem parent_alive_apply {child parent : Slot}
    (points : (event.apply table child).parent = some parent) :
    (event.apply table parent).state.Alive := by
  rcases event.parent_apply table child with
    same | ⟨self, rfl, adopted⟩ | ⟨self, rfl, moved⟩ | ⟨freed, _⟩
  · refine alive_apply legal (family.parent_alive (same.symm.trans points)) ?_
    rintro pid status rfl
    exact legal.2.2.2 child (same.symm.trans points)
  · obtain rfl := Option.some.inj (adopted.symm.trans points)
    refine alive_apply legal ?_ nofun
    rw [legal.1]
    trivial
  · obtain rfl := Option.some.inj (moved.symm.trans points)
    exact init_alive_apply family legal
  · cases freed.symm.trans points

theorem parented_apply (other : slot ≠ initproc) (born : (event.apply table slot).state.Born) :
    (event.apply table slot).parent ≠ none := by
  rcases event.parent_apply table slot with
    same | ⟨self, rfl, adopted⟩ | ⟨self, rfl, moved⟩ | ⟨_, unused⟩
  · rw [same]
    exact parented_before family legal other born
  · rw [adopted]
    nofun
  · rw [moved]
    nofun
  · rw [unused] at born
    exact born.elim

theorem rooted_transport {slot : Slot}
    (rooted : Forest.Rooted (fun slot => (table slot).parent) initproc slot)
    (stays : (event.apply table slot).parent ≠ none ∨ slot = initproc) :
    Forest.Rooted (fun slot => (event.apply table slot).parent) initproc slot := by
  refine rooted.transport (fun slot =>
    (event.apply table slot).parent ≠ none ∨ slot = initproc) ?_ stays
  intro child above other kept points
  rcases event.parent_apply table child with
    same | ⟨self, rfl, _⟩ | ⟨self, rfl, moved⟩ | ⟨freed, _⟩
  · have pointsAfter := same.trans points
    have alive := parent_alive_apply family legal pointsAfter
    refine .inl ⟨?_, pointsAfter⟩
    by_cases top : above = initproc
    · exact .inr top
    · exact .inl (parented_apply family legal top alive.born)
  · cases legal.2.2.symm.trans points
  · exact .inr moved
  · rcases kept with kept | top
    · exact absurd freed kept
    · exact absurd top other

theorem family_apply : Family (event.apply table) where
  init_alive := init_alive_apply family legal
  parent_alive := parent_alive_apply family legal
  parented := parented_apply family legal
  rooted := by
    intro slot points
    rcases event.parent_apply table slot with
      same | ⟨self, rfl, adopted⟩ | ⟨self, rfl, moved⟩ | ⟨freed, _⟩
    · refine rooted_transport family legal (family.rooted ?_) (.inl points)
      rw [← same]
      exact points
    · refine .step adopted ?_
      have before : (table self).state.Alive := by
        rw [legal.1]
        trivial
      have after := alive_apply legal before nofun
      by_cases top : self = initproc
      · rw [top]
        exact .root
      · exact rooted_transport family legal (family.rooted (family.parented top before.born))
          (.inl (parented_apply family legal top after.born))
    · exact .step moved .root
    · exact absurd freed points

end Family

end LifeEvent

theorem Family.userinit : Family ProcTable.userinit where
  init_alive := trivial
  parent_alive := by
    intro child parent points
    cases (ProcTable.userinit_parent child).symm.trans points
  parented := by
    intro slot other born
    unfold ProcTable.userinit at born
    rw [if_neg other] at born
    exact born.elim
  rooted := by
    intro slot points
    exact absurd (ProcTable.userinit_parent slot) points

namespace Machine

variable {Cpu : Type} [DecidableEq Cpu] {machine : Machine Cpu}

theorem run_family (run : Transition.Run (@Step Cpu _) boot labels machine) :
    Family machine.procs := by
  refine run.history (fun _ machine => Family machine.procs) Family.userinit ?_
  intro past middle label after run family taken
  obtain ⟨legal, procs⟩ := taken.legal (run_coherent run)
  rw [procs]
  exact LifeEvent.family_apply family legal

/-- In every state of every run each live process other than initproc has a
parent that is neither UNUSED nor ZOMBIE, and its parent pointers lead to
initproc; no slot is allocated while a process names it as its parent. -/
theorem no_orphans (run : Transition.Run (@Step Cpu _) boot labels machine) :
    (∀ slot, slot ≠ initproc → (machine.procs slot).state.Born → ∃ parent,
        (machine.procs slot).parent = some parent ∧ (machine.procs parent).state ≠ .unused ∧
        (machine.procs parent).state ≠ .zombie ∧ Forest.Rooted
        (fun slot => (machine.procs slot).parent) initproc slot) ∧ ∀ cpu self child pid next,
      Step machine (cpu, .alloc self child pid) next → ∀ slot, (machine.procs slot).parent ≠
      some child := by
  have family := run_family run
  constructor
  · intro slot other born
    obtain ⟨parent, points⟩ :=
      Option.ne_none_iff_exists'.mp (family.parented other born)
    have alive := family.parent_alive points
    refine ⟨parent, points, ?_, ?_, family.rooted (by rw [points]; nofun)⟩
    · intro unused
      rw [unused] at alive
      exact alive.elim
    · intro zombie
      rw [zombie] at alive
      exact alive.elim
  · intro cpu self child pid next taken slot points
    obtain ⟨legal, _⟩ := taken.legal (run_coherent run)
    have alive := family.parent_alive points
    rw [legal.2] at alive
    exact alive.elim

theorem forked_child_has_parent :
    ∃ parent, (started.forks.procs firstChild).parent = some parent ∧
      (started.forks.procs parent).state ≠ .unused ∧ (started.forks.procs parent).state ≠ .zombie ∧
      Forest.Rooted (fun slot => (started.forks.procs slot).parent) initproc firstChild := by
  have forked := forks_run rfl rfl started_lock (by decide) rfl
  exact (no_orphans (started_run.trans forked)).1 firstChild (by decide)
    trivial

end Machine

end Xv6Lottery
