import Xv6Lottery.Sleep.Wakeup

/-! Code with assertions: one for each process at each point, which the
accesses of the others keep, and one about the data alone. -/

namespace Xv6Lottery.Sleep

open Transition

structure Assertions (Process Data Point : Type) where
  shared : Data → Prop
  asserts : Process → Point → Data → Prop

variable {Process Cpu Name Chan Data Point : Type}

namespace Assertions

variable (assertions : Assertions Process Data Point)

/-- The assertions of an instruction follow from the one at its point. -/
def Fits (point : Point) : Instr Process Name Chan Data Point → Prop
  | .choose options => ∀ self data next, assertions.shared data →
      assertions.asserts self point data → options next → assertions.asserts self next data
  | .acquire _ next | .release _ next | .sleep _ _ next | .wakeup _ next =>
    ∀ self data, assertions.asserts self point data → assertions.asserts self next data
  | .killed next | .kill _ next => ∀ self data answer, assertions.asserts self point data →
        assertions.asserts self (next answer) data
  | .access use => ∀ self data, assertions.shared data → assertions.asserts self point data →
      assertions.shared (use self data).1 ∧
      assertions.asserts self (use self data).2 (use self data).1 ∧
      ∀ {other place}, other ≠ self → assertions.asserts other place data →
        assertions.asserts other place (use self data).1

/-- The assertion of a thread, also in sleep(), wakeup() and kill(). -/
def Asserts (self : Process) (data : Data) : Phase Process Name Chan Point → Prop
  | .code point => assertions.asserts self point data
  | .falling _ _ next | .dozing _ _ next | .asleep _ _ next
  | .rising _ next | .waking _ _ next => assertions.asserts self next data
  | .seeking _ _ next => ∀ answer, assertions.asserts self (next answer) data

theorem Asserts.mono {assertions : Assertions Process Data Point}
    (asserts : assertions.Asserts self data phase) (frame : ∀ {point}, assertions.asserts self point
      data → assertions.asserts self point changed) : assertions.Asserts self changed phase := by
  cases phase with
  | seeking pid rest next => exact fun answer => frame (asserts answer)
  | _ => exact frame asserts

structure Holds (machine : Machine Process Cpu Name Chan Data Point) : Prop where
  shared : assertions.shared machine.data
  asserts : ∀ slot, assertions.Asserts slot machine.data (machine.threads slot).phase

variable {assertions} [FinEnum Process] [DecidableEq Chan]
  {code : Point → Instr Process Name Chan Data Point}
  (fits : ∀ point, assertions.Fits point (code point))

include fits

theorem thread {self : Process} (shared : assertions.shared data)
    (asserts : assertions.Asserts self data before)
    (taken : ThreadStep code self procs data before move phase) :
    assertions.shared move.data ∧ assertions.Asserts self move.data phase ∧ ∀ {other place}, other ≠
      self → assertions.asserts other place data → assertions.asserts other place move.data := by
  have keeps : ∀ {other place}, other ≠ self → assertions.asserts other place data →
        assertions.asserts other place data := fun _ => id
  cases taken with
  | @choose point options next found chosen =>
    have fit := fits point
    rw [found] at fit
    exact ⟨shared, fit self data next shared asserts chosen, keeps⟩
  | @acquire point lk next found =>
    have fit := fits point
    rw [found] at fit
    exact ⟨shared, fit self data asserts, keeps⟩
  | @release point lk next found =>
    have fit := fits point
    rw [found] at fit
    exact ⟨shared, fit self data asserts, keeps⟩
  | @access point use found =>
    have fit := fits point
    rw [found] at fit
    exact fit self data shared asserts
  | @killed point next found =>
    have fit := fits point
    rw [found] at fit
    exact ⟨shared, fit self data _ asserts, keeps⟩
  | @sleep point chan lk next found =>
    have fit := fits point
    rw [found] at fit
    exact ⟨shared, fit self data asserts, keeps⟩
  | fall => exact ⟨shared, asserts, keeps⟩
  | doze => exact ⟨shared, asserts, keeps⟩
  | rise => exact ⟨shared, asserts, keeps⟩
  | regain => exact ⟨shared, asserts, keeps⟩
  | @wakeup point chan next found =>
    have fit := fits point
    rw [found] at fit
    exact ⟨shared, fit self data asserts, keeps⟩
  | wake => exact ⟨shared, asserts, keeps⟩
  | wakeSelf => exact ⟨shared, asserts, keeps⟩
  | woken => exact ⟨shared, asserts, keeps⟩
  | @kill point pid next found =>
    have fit := fits point
    rw [found] at fit
    exact ⟨shared, fun answer => fit self data answer asserts, keeps⟩
  | killHit => exact ⟨shared, asserts true, keeps⟩
  | killMiss => exact ⟨shared, asserts, keeps⟩
  | killEnd => exact ⟨shared, asserts false, keeps⟩

variable [DecidableEq Cpu] [DecidableEq Name]
  {machine after : Machine Process Cpu Name Chan Data Point}

theorem Holds.step {label : Label Process Name Chan} (holds : assertions.Holds machine)
    (taken : machine.Step code label after) : assertions.Holds after := by
  rcases taken.split with
    ⟨self, cpu, before, move, phase, takes⟩ | ⟨data, spared⟩
  · obtain ⟨runs, here, moved, _, _, _, rfl, rfl⟩ := takes
    have mine := holds.asserts self
    rw [here] at mine
    have ⟨shared, own, others⟩ := thread fits holds.shared mine moved
    refine ⟨shared, fun slot => ?_⟩
    by_cases same : slot = self
    · rw [same, Machine.perform_threads_self]
      exact own
    · rw [Machine.perform_threads_other same]
      exact (holds.asserts slot).mono (others same)
  · constructor
    · rw [data]
      exact holds.shared
    · intro slot
      rw [data, (spared slot).phase]
      exact holds.asserts slot

theorem Holds.run (boots : machine.Boot start) (shared : assertions.shared machine.data)
    (starts : ∀ slot, assertions.asserts slot (start slot) machine.data)
    (run : Run (Machine.Step code) machine labels after) : assertions.Holds after := by
  refine run.invariant assertions.Holds ⟨shared, fun slot => ?_⟩
    fun holds taken => holds.step fits taken
  rw [boots.ready slot]
  exact starts slot

end Assertions

end Xv6Lottery.Sleep
