import Xv6Lottery.Sleep.Wakeup

/-! Monitors: data under one spinlock. A process sleeps on a channel only while
its condition holds, and whoever makes the condition false wakes up the
sleepers before it releases the lock. -/

namespace Xv6Lottery.Sleep

open Transition
open Function (update update_self)

variable {Process Cpu Name Chan Data Point : Type}

/-- What the code of a monitor has at each point: whether it has the lock, what
it knows of the data, and the channels on which it has still to call
wakeup(). -/
structure Outline (Chan Data Point : Type) where
  inside : Point → Prop
  asserts : Point → Data → Prop
  owes : Point → Chan → Prop

namespace Outline

variable (outline : Outline Chan Data Point) (lk : Name)
  (mine : Chan → Prop) (cond : Chan → Data → Prop) (answers : Point → Bool → Prop)

structure Passes (point next : Point) : Prop where
  inside : outline.inside next ↔ outline.inside point
  asserts : ∀ {data}, outline.inside point → outline.asserts point data → outline.asserts next data
  owes : ∀ {chan}, outline.owes point chan → outline.owes next chan

structure Returns (held : Name) (next : Point) : Prop where
  inside : outline.inside next ↔ held = lk
  asserts : held = lk → ∀ data, outline.asserts next data

/-- The instruction at a point fits the outline. `answers` tells which
answers of killed() are considered. -/
def Fits (point : Point) : Instr Process Name Chan Data Point → Prop
  | .choose options => ∀ next, options next → outline.Passes point next
  | .acquire held next =>
    (held = lk → ¬outline.inside point ∧ outline.inside next ∧ ∀ data, outline.asserts next data) ∧
    (held ≠ lk → outline.Passes point next)
  | .release held next =>
    (held = lk → outline.inside point ∧ ¬outline.inside next ∧
      ∀ chan, mine chan → ¬outline.owes point chan) ∧
    (held ≠ lk → outline.Passes point next)
  | .sleep chan held next =>
    outline.Returns lk held next ∧ (outline.inside point ↔ held = lk) ∧ (mine chan → held = lk) ∧
      (held = lk → (∀ data, outline.asserts point data → mine chan → cond chan data) ∧
        ∀ other, mine other → ¬outline.owes point other)
  | .wakeup chan next =>
    (outline.inside next ↔ outline.inside point) ∧
    (∀ data, outline.inside point → outline.asserts point data → outline.asserts next data) ∧
    ∀ other, outline.owes point other → other = chan ∨ outline.owes next other
  | .killed next => ∀ answer, answers point answer → outline.Passes point (next answer)
  | .kill _ next => ∀ answer, outline.Passes point (next answer)
  | .access use => ∀ self data, (outline.inside (use self data).2 ↔ outline.inside point) ∧
      (outline.inside point → outline.asserts point data →
        outline.asserts (use self data).2 (use self data).1 ∧
        ∀ chan, mine chan → cond chan data ∨ outline.owes point chan → cond chan (use self data).1 ∨
            outline.owes (use self data).2 chan) ∧ (¬outline.inside point →
        (∀ other, outline.asserts other data → outline.asserts other (use self data).1) ∧
        ∀ chan, mine chan → cond chan data → cond chan (use self data).1)

/-! The outline of a thread. -/

def Inside : Phase Process Name Chan Point → Prop
  | .code point => outline.inside point
  | .falling _ held _ => held = lk
  | .dozing _ _ _ | .asleep _ _ _ | .rising _ _ => False
  | .waking _ _ next => outline.inside next
  | .seeking _ _ next => outline.inside (next false)

def Asserts (data : Data) : Phase Process Name Chan Point → Prop
  | .code point => outline.inside point → outline.asserts point data
  | .falling chan held next => outline.Returns lk held next ∧ (mine chan → held = lk)
  | .dozing _ held next | .asleep _ held next | .rising held next =>
    outline.Returns lk held next
  | .waking _ _ next => outline.inside next → outline.asserts next data
  | .seeking _ _ next => ∀ answer, (outline.inside (next answer) ↔ outline.inside (next false)) ∧
      (outline.inside (next answer) → outline.asserts (next answer) data)

/-- The thread will call wakeup() on the channel, or is in it and has not come
to the process. -/
def Owes (chan : Chan) (slot : Process) : Phase Process Name Chan Point → Prop
  | .code point => outline.inside point ∧ outline.owes point chan
  | .falling _ _ _ | .dozing _ _ _ | .asleep _ _ _ | .rising _ _ => False
  | .waking other rest next => outline.inside next ∧
      (outline.owes next chan ∨ chan = other ∧ slot ∈ rest)
  | .seeking _ _ next => outline.inside (next false) ∧ ∀ answer, outline.owes (next answer) chan

end Outline

def Machine.Waits (machine : Machine Process Cpu Name Chan Data Point)
    (slot : Process) (chan : Chan) : Prop :=
  (∃ held next, (machine.threads slot).phase = .falling chan held next) ∨
  (∃ held next, (machine.threads slot).phase = .dozing chan held next) ∨
  (machine.procs slot).SleepsOn chan

/-! What one step of a thread does. -/

section Threads

variable [FinEnum Process] [DecidableEq Chan] {code : Point → Instr Process Name Chan Data Point}
  {outline : Outline Chan Data Point} {lk : Name} {mine : Chan → Prop}
  {cond : Chan → Data → Prop} {answers : Point → Bool → Prop}
  {self slot : Process} {procs : Process → Record Chan} {data : Data}
  {before phase : Phase Process Name Chan Point} {move : Move Process Name Chan Data}
  (fits : ∀ point, outline.Fits lk mine cond answers point (code point))
  (taken : ThreadStep code self procs data before move phase)
  (answered : ∀ {point next}, before = .code point →
    code point = .killed next → answers point (procs self).killed)

include fits taken answered

section

variable (asserts : outline.Asserts lk mine data before)

include asserts

theorem inside_after
    (inside : outline.Inside lk phase) :
    move.acquires = some (.named lk) ∨ outline.Inside lk before ∧ move.releases ≠
      some (.named lk) := by
  cases taken with
  | @choose point _ next found chosen =>
    have fit := fits point
    rw [found] at fit
    exact .inr ⟨(fit next chosen).inside.mp inside, nofun⟩
  | @acquire point held next found =>
    have fit := fits point
    rw [found] at fit
    by_cases same : held = lk
    · rw [same]
      exact .inl rfl
    · exact .inr ⟨(fit.2 same).inside.mp inside, nofun⟩
  | @release point held next found =>
    have fit := fits point
    rw [found] at fit
    by_cases same : held = lk
    · exact ((fit.1 same).2.1 inside).elim
    · refine .inr ⟨(fit.2 same).inside.mp inside, fun other => ?_⟩
      cases other
      exact same rfl
  | @access point use found =>
    have fit := fits point
    rw [found] at fit
    exact .inr ⟨(fit self data).1.mp inside, nofun⟩
  | @killed point next found =>
    have fit := fits point
    rw [found] at fit
    exact .inr ⟨(fit _ (answered rfl found)).inside.mp inside, nofun⟩
  | @sleep point chan held next found =>
    have fit := fits point
    rw [found] at fit
    exact .inr ⟨fit.2.1.mpr inside, nofun⟩
  | fall => exact inside.elim
  | doze => exact inside.elim
  | rise => exact inside.elim
  | @regain held next =>
    rw [asserts.inside.mp inside]
    exact .inl rfl
  | @wakeup point chan next found =>
    have fit := fits point
    rw [found] at fit
    exact .inr ⟨fit.1.mp inside, nofun⟩
  | wake => exact .inr ⟨inside, nofun⟩
  | wakeSelf => exact .inr ⟨inside, nofun⟩
  | woken => exact .inr ⟨inside, nofun⟩
  | @kill point pid next found =>
    have fit := fits point
    rw [found] at fit
    exact .inr ⟨(fit false).inside.mp inside, nofun⟩
  | killHit => exact .inr ⟨(asserts true).1.mp inside, nofun⟩
  | killMiss => exact .inr ⟨inside, nofun⟩
  | killEnd => exact .inr ⟨inside, nofun⟩

theorem asserts_after :
    outline.Asserts lk mine move.data phase := by
  cases taken with
  | @choose point _ next found chosen =>
    have fit := fits point
    rw [found] at fit
    have passes := fit next chosen
    intro inside
    have before := passes.inside.mp inside
    exact passes.asserts before (asserts before)
  | @acquire point held next found =>
    have fit := fits point
    rw [found] at fit
    intro inside
    by_cases same : held = lk
    · exact (fit.1 same).2.2 data
    · have before := (fit.2 same).inside.mp inside
      exact (fit.2 same).asserts before (asserts before)
  | @release point held next found =>
    have fit := fits point
    rw [found] at fit
    intro inside
    by_cases same : held = lk
    · exact ((fit.1 same).2.1 inside).elim
    · have before := (fit.2 same).inside.mp inside
      exact (fit.2 same).asserts before (asserts before)
  | @access point use found =>
    have fit := fits point
    rw [found] at fit
    intro inside
    have before := (fit self data).1.mp inside
    exact ((fit self data).2.1 before (asserts before)).1
  | @killed point next found =>
    have fit := fits point
    rw [found] at fit
    have passes := fit _ (answered rfl found)
    intro inside
    have before := passes.inside.mp inside
    exact passes.asserts before (asserts before)
  | @sleep point chan held next found =>
    have fit := fits point
    rw [found] at fit
    exact ⟨fit.1, fit.2.2.1⟩
  | fall => exact asserts.1
  | doze => exact asserts
  | rise => exact asserts
  | regain => exact fun inside => asserts.asserts (asserts.inside.mp inside) _
  | @wakeup point chan next found =>
    have fit := fits point
    rw [found] at fit
    intro inside
    have before := fit.1.mp inside
    exact fit.2.1 data before (asserts before)
  | wake => exact asserts
  | wakeSelf => exact asserts
  | woken => exact asserts
  | @kill point pid next found =>
    have fit := fits point
    rw [found] at fit
    intro answer
    refine ⟨(fit answer).inside.trans (fit false).inside.symm, fun inside => ?_⟩
    have before := (fit answer).inside.mp inside
    exact (fit answer).asserts before (asserts before)
  | killHit => exact (asserts true).2
  | killMiss => exact asserts
  | killEnd => exact (asserts false).2

/-- A condition that was true or owed is true or owed still, or the process
has been visited. -/
theorem owes_after (belongs : mine chan)
    (differs : slot ≠ self) (owed : cond chan data ∨ outline.Owes chan slot before) :
    cond chan move.data ∨ outline.Owes chan slot phase ∨ move.passes = some (.proc slot) ∧
      ¬(move.apply procs slot).SleepsOn chan := by
  cases taken with
  | @choose point _ next found chosen =>
    have fit := fits point
    rw [found] at fit
    have passes := fit next chosen
    refine owed.imp_right fun ⟨inside, owes⟩ => .inl ?_
    exact ⟨passes.inside.mpr inside, passes.owes owes⟩
  | @acquire point held next found =>
    have fit := fits point
    rw [found] at fit
    refine owed.imp_right fun ⟨inside, owes⟩ => .inl ?_
    by_cases same : held = lk
    · exact ((fit.1 same).1 inside).elim
    · exact ⟨(fit.2 same).inside.mpr inside, (fit.2 same).owes owes⟩
  | @release point held next found =>
    have fit := fits point
    rw [found] at fit
    refine owed.imp_right fun ⟨inside, owes⟩ => .inl ?_
    by_cases same : held = lk
    · exact ((fit.1 same).2.2 chan belongs owes).elim
    · exact ⟨(fit.2 same).inside.mpr inside, (fit.2 same).owes owes⟩
  | @access point use found =>
    have fit := fits point
    rw [found] at fit
    obtain ⟨iff, change, frame⟩ := fit self data
    by_cases inside : outline.inside point
    · refine ((change inside (asserts inside)).2 chan belongs
        (owed.imp_right And.right)).imp_right fun owes => .inl ?_
      exact ⟨iff.mpr inside, owes⟩
    · rcases owed with holds | ⟨wrong, _⟩
      · exact .inl ((frame inside).2 chan belongs holds)
      · exact (inside wrong).elim
  | @killed point next found =>
    have fit := fits point
    rw [found] at fit
    have passes := fit _ (answered rfl found)
    refine owed.imp_right fun ⟨inside, owes⟩ => .inl ?_
    exact ⟨passes.inside.mpr inside, passes.owes owes⟩
  | @sleep point other held next found =>
    have fit := fits point
    rw [found] at fit
    refine owed.imp_right fun ⟨inside, owes⟩ => ?_
    have same := fit.2.1.mp inside
    exact ((fit.2.2.2 same).2 chan belongs owes).elim
  | fall => exact .inl (owed.resolve_right id)
  | doze => exact .inl (owed.resolve_right id)
  | rise => exact .inl (owed.resolve_right id)
  | regain => exact .inl (owed.resolve_right id)
  | @wakeup point other next found =>
    have fit := fits point
    rw [found] at fit
    refine owed.imp_right fun ⟨inside, owes⟩ => .inl ?_
    refine ⟨fit.1.mpr inside, ?_⟩
    rcases fit.2.2 chan owes with same | later
    · exact .inr ⟨same, FinEnum.mem_toList slot⟩
    · exact .inl later
  | @wake target other rest next apart =>
    rcases owed with holds | ⟨inside, owes⟩
    · exact .inl holds
    rcases owes with later | ⟨same, listed⟩
    · exact .inr (.inl ⟨inside, .inl later⟩)
    rcases List.mem_cons.mp listed with rfl | left
    · refine .inr (.inr ⟨rfl, ?_⟩)
      rw [same]
      unfold Move.apply
      simp only [update_self]
      exact Record.rouse_awake _ _
    · exact .inr (.inl ⟨inside, .inr ⟨same, left⟩⟩)
  | wakeSelf =>
    refine owed.imp_right fun ⟨inside, owes⟩ => .inl ⟨inside, ?_⟩
    refine owes.imp_right fun ⟨same, listed⟩ => ⟨same, ?_⟩
    exact (List.mem_cons.mp listed).resolve_left differs
  | woken =>
    refine owed.imp_right fun ⟨inside, owes⟩ => .inl ⟨inside, ?_⟩
    exact owes.resolve_right fun ⟨_, listed⟩ => nomatch listed
  | @kill point pid next found =>
    have fit := fits point
    rw [found] at fit
    refine owed.imp_right fun ⟨inside, owes⟩ => .inl ?_
    exact ⟨(fit false).inside.mpr inside, fun answer => (fit answer).owes owes⟩
  | killHit =>
    refine owed.imp_right fun ⟨inside, owes⟩ => .inl ?_
    exact ⟨(asserts true).1.mpr inside, owes true⟩
  | killMiss => exact owed.imp_right .inl
  | killEnd =>
    refine owed.imp_right fun ⟨inside, owes⟩ => .inl ?_
    exact ⟨inside, owes false⟩

end

omit answered in
theorem data_after :
    outline.Inside lk before ∨ (∀ point, outline.asserts point data →
        outline.asserts point move.data) ∧ ∀ chan, mine chan → cond chan data →
      cond chan move.data := by
  cases taken with
  | @access point use found =>
    have fit := fits point
    rw [found] at fit
    by_cases inside : outline.inside point
    · exact .inl inside
    · exact .inr ((fit self data).2.2 inside)
  | _ => exact .inr ⟨fun _ => id, fun _ _ => id⟩

end Threads

/-! Whole runs. -/

namespace Outline

variable {outline : Outline Chan Data Point} {lk : Name} {mine : Chan → Prop} {data changed : Data}
  {phase : Phase Process Name Chan Point}

theorem Owes.inside (owes : outline.Owes chan slot phase) : outline.Inside lk phase := by
  cases phase <;> first | exact owes.1 | exact owes.elim

theorem Asserts.outside (asserts : outline.Asserts lk mine data phase)
    (outside : ¬outline.Inside lk phase) : outline.Asserts lk mine changed phase := by
  cases phase with
  | code point => exact fun inside => (outside inside).elim
  | waking chan rest next => exact fun inside => (outside inside).elim
  | seeking pid rest next =>
    intro answer
    have iff := (asserts answer).1
    exact ⟨iff, fun inside => (outside (iff.mp inside)).elim⟩
  | _ => exact asserts

theorem Asserts.mono (asserts : outline.Asserts lk mine data phase)
    (frame : ∀ point, outline.asserts point data → outline.asserts point changed) :
    outline.Asserts lk mine changed phase := by
  cases phase with
  | code point => exact fun inside => frame _ (asserts inside)
  | waking chan rest next => exact fun inside => frame _ (asserts inside)
  | seeking pid rest next =>
    intro answer
    have ⟨iff, holds⟩ := asserts answer
    exact ⟨iff, fun inside => frame _ (holds inside)⟩
  | _ => exact asserts

end Outline

structure Monitored (outline : Outline Chan Data Point) (lk : Name)
    (mine : Chan → Prop) (cond : Chan → Data → Prop)
    (machine : Machine Process Cpu Name Chan Data Point) : Prop where
  coherent : Coherent machine
  holds : ∀ {slot}, outline.Inside lk (machine.threads slot).phase → machine.Holds slot lk
  asserts : ∀ slot, outline.Asserts lk mine machine.data (machine.threads slot).phase
  waits : ∀ {slot chan}, mine chan → machine.Waits slot chan → cond chan machine.data ∨
      ∃ waker, outline.Owes chan slot (machine.threads waker).phase

/-- The answers of killed() that the threads are about to get are
considered. -/
def Answered (code : Point → Instr Process Name Chan Data Point) (answers : Point → Bool → Prop)
    (machine : Machine Process Cpu Name Chan Data Point) : Prop :=
  ∀ slot point next, machine.threads slot = ⟨.code point, false⟩ →
    code point = .killed next → answers point (machine.procs slot).killed

namespace Monitored

variable [FinEnum Process] [DecidableEq Cpu] [DecidableEq Name]
  [DecidableEq Chan] {code : Point → Instr Process Name Chan Data Point}
  {outline : Outline Chan Data Point} {lk : Name} {mine : Chan → Prop}
  {cond : Chan → Data → Prop} {answers : Point → Bool → Prop}
  {machine after : Machine Process Cpu Name Chan Data Point}
  {label : Label Process Name Chan} {self slot : Process} {chan : Chan}
  {cpu : Cpu} {before phase : Phase Process Name Chan Point} {move : Move Process Name Chan Data}

omit [FinEnum Process] [DecidableEq Cpu] [DecidableEq Name] [DecidableEq Chan] in
theorem waits_spared (spared : Spared machine label after slot)
    (waits : after.Waits slot chan) : machine.Waits slot chan := by
  unfold Machine.Waits at waits
  rw [spared.phase] at waits
  rcases waits with falls | dozes | ⟨sleeps, on⟩
  · exact .inl falls
  · exact .inr (.inl dozes)
  · have ⟨already, same⟩ := spared.asleep sleeps
    exact .inr (.inr ⟨already, same.symm.trans on⟩)

theorem waits_free (coherent : Coherent machine) (free : machine.lock (.proc slot) = none)
    (phase : (after.threads slot).phase = (machine.threads slot).phase)
    (waits : after.Waits slot chan) : (after.procs slot).SleepsOn chan := by
  unfold Machine.Waits at waits
  rw [phase] at waits
  have sleeps := sleeps_of_free coherent free
  rcases waits with ⟨held, next, falls⟩ | ⟨held, next, dozes⟩ | asleep
  · rw [falls] at sleeps
    exact (sleeps trivial).elim
  · rw [dozes] at sleeps
    exact (sleeps trivial).elim
  · exact asleep

theorem waits_own (fits : ∀ point, outline.Fits lk mine cond answers point (code point))
    (monitored : Monitored outline lk mine cond machine)
    (takes : Takes code machine label after self cpu before move phase) (belongs : mine chan)
    (waits : after.Waits self chan) :
    cond chan after.data ∨ machine.Waits self chan ∧ after.data = machine.data := by
  have asserts := monitored.asserts self
  obtain ⟨runs, here, taken, _, _, _, rfl, rfl⟩ := takes
  rw [here] at asserts
  have running := monitored.coherent.running runs
  unfold Machine.Waits at waits ⊢
  rw [Machine.perform_threads_self, Machine.perform_procs] at waits
  rw [here]
  rcases waits with ⟨held, next, falls⟩ | ⟨held, next, dozes⟩ | ⟨sleeps, on⟩
  · simp only at falls
    subst falls
    cases taken with
    | @sleep point _ _ _ found =>
      have fit := fits point
      rw [found] at fit
      have same := fit.2.2.1 belongs
      have inside := fit.2.1.mpr same
      exact .inl ((fit.2.2.2 same).1 _ (asserts inside) belongs)
  · simp only at dozes
    subst dozes
    cases taken with
    | fall => exact .inr ⟨.inl ⟨held, next, rfl⟩, rfl⟩
  · have dozing := taken.sleeps_after running sleeps
    cases taken with
    | @doze other held next =>
      have now : update machine.procs self ((machine.procs self).doze other) self =
            (machine.procs self).doze other := update_self ..
      cases (congrArg Record.chan now).symm.trans on
      exact .inr ⟨.inr (.inl ⟨held, next, rfl⟩), rfl⟩
    | _ => exact dozing.elim

variable (fits : ∀ point, outline.Fits lk mine cond answers point (code point))

include fits

theorem thread (monitored : Monitored outline lk mine cond machine)
    (answered : Answered code answers machine) (taken : machine.Step code label after)
    (takes : Takes code machine label after self cpu before move phase) :
    Monitored outline lk mine cond after := by
  have coherent := monitored.coherent
  have spares : ∀ {slot}, slot ≠ self → Spared machine label after slot :=
    takes.spares
  have own : ∀ {chan}, mine chan → after.Waits self chan → cond chan after.data ∨
        machine.Waits self chan ∧ after.data = machine.data :=
    monitored.waits_own fits takes
  have mineBefore := monitored.asserts self
  have kept := coherent.step taken
  obtain ⟨runs, here, moved, passes, acquires, releases, rfl, rfl⟩ := takes
  have answer : ∀ {point next}, before = .code point → code point = .killed next →
        answers point (machine.procs self).killed := by
    rintro point next rfl found
    exact answered self point next here found
  rw [here] at mineBefore
  have inHere : outline.Inside lk before → outline.Inside lk (machine.threads self).phase := by
    rw [here]
    exact id
  refine {
    coherent := kept
    holds := fun {slot} inside => ?_
    asserts := fun slot => ?_
    waits := fun {slot chan} belongs waits => ?_ }
  · by_cases same : slot = self
    · rw [same] at inside ⊢
      rw [Machine.perform_threads_self] at inside
      have stays : move.switches = false := by
        by_contra switches
        have sleeps := moved.switches_off.mp (by simpa using switches)
        cases phase <;> first | exact inside.elim | exact sleeps.elim
      refine ⟨cpu, ?_, ?_⟩
      · rw [Machine.perform_cpus_stay stays]
        exact runs
      · by_cases acquired : move.acquires = some (.named lk)
        · have kept : move.releases ≠ some (.named lk) := by
            intro released
            cases (acquires _ acquired).symm.trans (releases _ released)
          simp [Machine.perform, acquired, kept]
        · obtain ⟨before, kept⟩ := (inside_after fits moved answer mineBefore
            inside).resolve_left acquired
          obtain ⟨place, there, held⟩ := monitored.holds (inHere before)
          rw [coherent.runs_unique there runs] at held
          rw [Machine.perform_lock_kept acquired kept]
          exact held
    · rw [Machine.perform_threads_other same] at inside
      exact (spares same).holds (monitored.holds inside)
  · by_cases same : slot = self
    · rw [same, Machine.perform_threads_self]
      exact asserts_after fits moved answer mineBefore
    · rw [Machine.perform_threads_other same]
      have theirs := monitored.asserts slot
      rcases data_after fits moved with inside | ⟨frame, _⟩
      · refine theirs.outside fun both => same ?_
        exact (monitored.holds both).exclusive (monitored.holds (inHere inside))
      · exact theirs.mono frame
  · by_cases same : slot = self
    · rw [same] at waits ⊢
      rcases own belongs waits with holds | ⟨waited, data⟩
      · exact .inl holds
      rw [data]
      refine (monitored.waits belongs waited).imp_right ?_
      rintro ⟨waker, owes⟩
      have differs : waker ≠ self := by
        rintro rfl
        rcases waited with ⟨held, next, falls⟩ | ⟨held, next, dozes⟩ | sleeps
        · rw [falls] at owes
          exact owes
        · rw [dozes] at owes
          exact owes
        · cases (coherent.running runs).symm.trans sleeps.1
      refine ⟨waker, ?_⟩
      rw [Machine.perform_threads_other differs]
      exact owes
    · have waited := waits_spared (spares same) waits
      have owed : cond chan machine.data ∨ outline.Owes chan slot before ∨ ∃ waker, waker ≠ self ∧
            outline.Owes chan slot (machine.threads waker).phase := by
        refine (monitored.waits belongs waited).imp_right ?_
        rintro ⟨waker, owes⟩
        by_cases actor : waker = self
        · rw [actor, here] at owes
          exact .inl owes
        · exact .inr ⟨waker, actor, owes⟩
      have own : cond chan machine.data ∨ outline.Owes chan slot before →
          cond chan move.data ∨ ∃ waker, outline.Owes chan slot
            ((machine.perform cpu self move phase).threads waker).phase := by
        intro owed
        rcases owes_after fits moved answer mineBefore belongs same owed with
          holds | owes | ⟨passed, awake⟩
        · exact .inl holds
        · refine .inr ⟨self, ?_⟩
          rw [Machine.perform_threads_self]
          exact owes
        · exact (awake (waits_free coherent (passes _ passed) (spares same).phase waits)).elim
      rcases owed with holds | owes | ⟨waker, actor, owes⟩
      · exact own (.inl holds)
      · exact own (.inr owes)
      · refine .inr ⟨waker, ?_⟩
        rw [Machine.perform_threads_other actor]
        exact owes

theorem step (monitored : Monitored outline lk mine cond machine)
    (answered : Answered code answers machine) (taken : machine.Step code label after) :
    Monitored outline lk mine cond after := by
  rcases taken.split with
    ⟨self, cpu, before, move, phase, takes⟩ | ⟨data, spared⟩
  · exact monitored.thread fits answered taken takes
  · refine {
      coherent := monitored.coherent.step taken
      holds := fun {slot} inside => ?_
      asserts := fun slot => ?_
      waits := fun {slot chan} belongs waits => ?_ }
    · rw [(spared slot).phase] at inside
      exact (spared slot).holds (monitored.holds inside)
    · rw [data, (spared slot).phase]
      exact monitored.asserts slot
    · rw [data]
      refine (monitored.waits belongs (waits_spared (spared slot) waits)).imp_right ?_
      rintro ⟨waker, owes⟩
      refine ⟨waker, ?_⟩
      rw [(spared waker).phase]
      exact owes

omit fits [DecidableEq Chan] [DecidableEq Cpu] [DecidableEq Name] [FinEnum Process] in
theorem boot (boots : machine.Boot start) (outside : ∀ slot, ¬outline.inside (start slot)) :
    Monitored outline lk mine cond machine := by
  refine {
    coherent := .boot boots
    holds := fun {slot} inside => ?_
    asserts := fun slot => ?_
    waits := fun {slot chan} _ waits => ?_ }
  · rw [boots.ready slot] at inside
    exact (outside slot inside).elim
  · rw [boots.ready slot]
    exact fun inside => (outside slot inside).elim
  · unfold Machine.Waits at waits
    rw [boots.ready slot] at waits
    rcases waits with ⟨_, _, falls⟩ | ⟨_, _, dozes⟩ | sleeps
    · cases falls
    · cases dozes
    · cases (boots.runnable slot).symm.trans sleeps.1

theorem run (boots : machine.Boot start) (outside : ∀ slot, ¬outline.inside (start slot))
    (run : Run (fun machine label after => Answered code answers machine ∧
      machine.Step code label after) machine labels after) :
    Monitored outline lk mine cond after := by
  refine run.invariant (Monitored outline lk mine cond) (.boot boots outside) ?_
  rintro middle label next monitored ⟨answered, taken⟩
  exact monitored.step fits answered taken

omit fits [FinEnum Process] [DecidableEq Cpu] [DecidableEq Name] [DecidableEq Chan] in
/-- While the lock is free, a process sleeps only if its condition holds. -/
theorem cond_of_free (monitored : Monitored outline lk mine cond machine)
    (free : machine.lock (.named lk) = none) (belongs : mine chan)
    (sleeps : (machine.procs slot).SleepsOn chan) : cond chan machine.data := by
  rcases monitored.waits belongs (.inr (.inr sleeps)) with
    holds | ⟨waker, owes⟩
  · exact holds
  · obtain ⟨cpu, _, held⟩ := monitored.holds owes.inside
    cases free.symm.trans held

end Monitored

end Xv6Lottery.Sleep
