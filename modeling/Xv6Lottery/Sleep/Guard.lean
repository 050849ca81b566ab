import Xv6Lottery.Sleep.Wakeup

/-! Code that asks killed() before it sleeps. Between the answer and the step
that makes the process SLEEPING there is a gap, where a kill() does not wake it
up. -/

namespace Xv6Lottery.Sleep

open Transition

variable {Process Cpu Name Chan Data Point : Type}

/-- Every sleep() is in the gap, and only a 0 from killed() leads there. -/
def Guarded (gap : Point → Prop) (point : Point) : Instr Process Name Chan Data Point → Prop
  | .choose options => ∀ next, options next → gap next → gap point
  | .acquire _ next | .release _ next | .wakeup _ next =>
    gap next → gap point
  | .sleep _ _ _ => gap point
  | .killed next => ¬gap (next true)
  | .kill _ next => ∀ answer, gap (next answer) → gap point
  | .access use => ∀ self data, gap (use self data).2 → gap point

/-- The process has been told that it is not killed, and is on its way to
sleep. -/
def Phase.InGap (gap : Point → Prop) : Phase Process Name Chan Point → Prop
  | .code point => gap point
  | .falling _ _ _ | .dozing _ _ _ => True
  | .asleep _ _ next | .rising _ next | .waking _ _ next => gap next
  | .seeking _ _ next => ∃ answer, gap (next answer)

instance (gap : Point → Prop) [DecidablePred gap] : DecidablePred (Phase.InGap gap :
      Phase Process Name Chan Point → Prop)
  | .code point => inferInstanceAs (Decidable (gap point))
  | .falling _ _ _ | .dozing _ _ _ => inferInstanceAs (Decidable True)
  | .asleep _ _ next | .rising _ next | .waking _ _ next =>
    inferInstanceAs (Decidable (gap next))
  | .seeking _ _ next =>
    inferInstanceAs (Decidable (∃ answer, gap (next answer)))

/-- The step is not a kill() of a process in its gap. -/
def KillsOutside (gap : Point → Prop) (machine : Machine Process Cpu Name Chan Data Point)
    (label : Label Process Name Chan) : Prop :=
  ∀ self victim, label = .kill self victim → ¬(machine.threads victim).phase.InGap gap

section Threads

variable [FinEnum Process] [DecidableEq Chan]
  {code : Point → Instr Process Name Chan Data Point} {gap : Point → Prop}
  (guarded : ∀ point, Guarded gap point (code point))
  {self : Process} {procs : Process → Record Chan} {data : Data}
  {before phase : Phase Process Name Chan Point} {move : Move Process Name Chan Data}

include guarded

theorem ThreadStep.gap_after (taken : ThreadStep code self procs data before move phase)
    (inGap : phase.InGap gap) :
    before.InGap gap ∨ (procs self).killed = false ∧ move.label = .quiet := by
  cases taken with
  | @choose point options next found chosen =>
    have guard := guarded point
    rw [found] at guard
    exact .inl (guard next chosen inGap)
  | @acquire point lk next found =>
    have guard := guarded point
    rw [found] at guard
    exact .inl (guard inGap)
  | @release point lk next found =>
    have guard := guarded point
    rw [found] at guard
    exact .inl (guard inGap)
  | @access point use found =>
    have guard := guarded point
    rw [found] at guard
    exact .inl (guard self data inGap)
  | @killed point next found =>
    have guard := guarded point
    rw [found] at guard
    refine .inr ⟨Bool.eq_false_iff.mpr fun killed => guard ?_, rfl⟩
    rw [killed] at inGap
    exact inGap
  | @sleep point chan lk next found =>
    have guard := guarded point
    rw [found] at guard
    exact .inl guard
  | fall => exact .inl trivial
  | doze => exact .inl trivial
  | rise => exact .inl inGap
  | regain => exact .inl inGap
  | @wakeup point chan next found =>
    have guard := guarded point
    rw [found] at guard
    exact .inl (guard inGap)
  | wake => exact .inl inGap
  | wakeSelf => exact .inl inGap
  | woken => exact .inl inGap
  | @kill point pid next found =>
    have guard := guarded point
    rw [found] at guard
    obtain ⟨answer, inGap⟩ := inGap
    exact .inl (guard answer inGap)
  | killHit => exact .inl ⟨true, inGap⟩
  | killMiss => exact .inl inGap
  | killEnd => exact .inl ⟨false, inGap⟩

end Threads

structure Unkilled (gap : Point → Prop)
    (machine : Machine Process Cpu Name Chan Data Point) : Prop where
  coherent : Coherent machine
  gap : ∀ {slot}, (machine.threads slot).phase.InGap gap → (machine.procs slot).killed = false
  asleep : ∀ {slot}, (machine.procs slot).state = .sleeping → (machine.procs slot).killed = false

section Runs

variable [FinEnum Process] [DecidableEq Cpu] [DecidableEq Name]
  [DecidableEq Chan] {code : Point → Instr Process Name Chan Data Point} {gap : Point → Prop}
  (guarded : ∀ point, Guarded gap point (code point))
  {machine after : Machine Process Cpu Name Chan Data Point} {label : Label Process Name Chan}

theorem Machine.Step.kill_awakes (taken : machine.Step code (.kill self victim) after) :
    (after.procs victim).state ≠ .sleeping := by
  generalize called : Label.kill self victim = label at taken
  cases taken with
  | thread _ _ moved =>
    cases moved with
    | killHit =>
      cases called
      rw [Machine.perform_procs]
      unfold Move.apply
      simp only [Function.update_self]
      exact Record.kill_awake _
    | _ => cases called
  | _ => cases called

include guarded

theorem Unkilled.step (unkilled : Unkilled gap machine) (outside : KillsOutside gap machine label)
    (taken : machine.Step code label after) : Unkilled gap after := by
  have kept : ∀ slot, (machine.procs slot).killed = false → (∀ self, label ≠ .kill self slot) →
        (after.procs slot).killed = false := by
    intro slot before spared
    rcases taken.killed_kept slot with same | ⟨self, called⟩
    · exact same.trans before
    · exact (spared self called).elim
  refine ⟨unkilled.coherent.step taken, fun {slot} inGap => ?_, fun {slot} sleeps => ?_⟩
  · rcases taken.seen slot with ⟨cpu, before, move, phase, takes⟩ | spared
    · obtain ⟨runs, here, moved, _, _, _, rfl, rfl⟩ := takes
      rw [Machine.perform_threads_self] at inGap
      rcases moved.gap_after guarded inGap with already | ⟨alive, quiet⟩
      · have there : (machine.threads slot).phase.InGap gap := by
          rw [here]
          exact already
        exact kept slot (unkilled.gap there) fun self called =>
          outside self slot called there
      · refine kept slot alive fun self called => ?_
        cases quiet.symm.trans called
    · rw [spared.phase] at inGap
      exact kept slot (unkilled.gap inGap) fun self called =>
        outside self slot called inGap
  · have spared : ∀ self, label ≠ .kill self slot := by
      rintro self rfl
      exact taken.kill_awakes sleeps
    refine kept slot ?_ spared
    rcases taken.seen slot with ⟨cpu, before, move, phase, takes⟩ | seen
    · obtain ⟨runs, here, moved, _, _, _, rfl, rfl⟩ := takes
      rw [Machine.perform_procs] at sleeps
      have dozes := moved.sleeps_after (unkilled.coherent.running runs) sleeps
      refine unkilled.gap ?_
      rw [here]
      cases before <;> trivial
    · exact unkilled.asleep (seen.asleep sleeps).1

theorem Unkilled.run (boots : machine.Boot start) (starts : ∀ slot, ¬gap (start slot))
    (run : Run (fun machine label after => KillsOutside gap machine label ∧
      machine.Step code label after) machine labels after) : Unkilled gap after := by
  refine run.invariant (Unkilled gap) ⟨.boot boots, fun {slot} inGap => ?_,
    fun {slot} sleeps => ?_⟩ ?_
  · rw [boots.ready slot] at inGap
    exact (starts slot inGap).elim
  · cases (boots.runnable slot).symm.trans sleeps
  · rintro middle label next unkilled ⟨outside, taken⟩
    exact unkilled.step guarded outside taken

end Runs

end Xv6Lottery.Sleep
