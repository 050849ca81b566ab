import Xv6Lottery.Sleep.Coherent

/-! No wakeup() is lost: what a step does to a process that does not take it,
and a process in sleep() while another one is in wakeup(). -/

namespace Xv6Lottery.Sleep

open Function (update update_eq_self update_of_ne update_self)

variable {Process Cpu Name Chan Data Point : Type}

def Machine.Holds (machine : Machine Process Cpu Name Chan Data Point)
    (self : Process) (lk : Name) : Prop :=
  ∃ cpu, machine.cpus cpu = .runs self ∧ machine.lock (.named lk) = some cpu

def Record.SleepsOn (process : Record Chan) (chan : Chan) : Prop :=
  process.state = .sleeping ∧ process.chan = some chan

theorem Machine.Holds.exclusive {machine : Machine Process Cpu Name Chan Data Point}
    (mine : machine.Holds self lk) (theirs : machine.Holds other lk) : self = other := by
  obtain ⟨cpu, runs, held⟩ := mine
  obtain ⟨cpu', runs', held'⟩ := theirs
  cases held.symm.trans held'
  cases runs.symm.trans runs'
  rfl

def Phase.Falls : Phase Process Name Chan Point → Prop
  | .falling _ _ _ => True
  | _ => False

def Phase.Dozes : Phase Process Name Chan Point → Prop
  | .dozing _ _ _ => True
  | _ => False

theorem Phase.Dozes.owns {phase : Phase Process Name Chan Point}
    (dozes : phase.Dozes) : phase.Owns := by
  cases phase <;> trivial

theorem Phase.Dozes.not_sleeps {phase : Phase Process Name Chan Point}
    (dozes : phase.Dozes) : ¬phase.Sleeps := by
  cases phase <;> first | exact id | exact dozes.elim

variable [FinEnum Process] [DecidableEq Cpu] [DecidableEq Name]
  [DecidableEq Chan] {code : Point → Instr Process Name Chan Data Point}
  {machine after : Machine Process Cpu Name Chan Data Point}
  {label : Label Process Name Chan} {self slot : Process}

/-! The steps from the side of one process. -/

structure Takes (code : Point → Instr Process Name Chan Data Point)
    (machine : Machine Process Cpu Name Chan Data Point) (label : Label Process Name Chan)
    (after : Machine Process Cpu Name Chan Data Point) (self : Process)
    (cpu : Cpu) (before : Phase Process Name Chan Point) (move : Move Process Name Chan Data)
    (phase : Phase Process Name Chan Point) : Prop where
  runs : machine.cpus cpu = .runs self
  here : machine.threads self = ⟨before, false⟩
  taken : ThreadStep code self machine.procs machine.data before move phase
  passes : ∀ lock ∈ move.passes, machine.lock lock = none
  acquires : ∀ lock ∈ move.acquires, machine.lock lock = none
  releases : ∀ lock ∈ move.releases, machine.lock lock = some cpu
  label_eq : label = move.label
  after_eq : after = machine.perform cpu self move phase

/-- What a process sees of the steps that it does not take. -/
structure Spared (machine : Machine Process Cpu Name Chan Data Point)
    (label : Label Process Name Chan)
    (after : Machine Process Cpu Name Chan Data Point) (slot : Process) : Prop where
  phase : (after.threads slot).phase = (machine.threads slot).phase
  asleep : (after.procs slot).state = .sleeping → (machine.procs slot).state = .sleeping ∧
      (after.procs slot).chan = (machine.procs slot).chan
  killed : (after.procs slot).killed = (machine.procs slot).killed ∨ ∃ self, label = .kill self slot
  holds : ∀ {lk}, machine.Holds slot lk → after.Holds slot lk

omit [DecidableEq Name] in
theorem ThreadStep.killed_kept (taken : ThreadStep code self procs data before move phase)
    (slot : Process) :
    (move.apply procs slot).killed = (procs slot).killed ∨ move.label = .kill self slot := by
  have change := taken.change slot
  generalize move.apply procs slot = process at change
  cases change with
  | same => exact .inl rfl
  | doze => exact .inl rfl
  | rise => exact .inl rfl
  | wake chan => exact .inl (Record.rouse_killed ..)
  | kill called => exact .inr called

theorem Takes.spares (takes : Takes code machine label after self cpu before move phase)
    (differs : slot ≠ self) : Spared machine label after slot := by
  obtain ⟨runs, here, taken, passes, acquires, releases, rfl, rfl⟩ := takes
  refine {
    phase := by rw [Machine.perform_threads_other differs]
    asleep := fun now => ?_
    killed := ?_
    holds := fun {lk} ⟨place, there, held⟩ => ?_ }
  · have change := taken.change slot
    rw [Machine.perform_procs] at now ⊢
    generalize move.apply machine.procs slot = process at change now
    cases change with
    | same => exact ⟨now, rfl⟩
    | doze mine => exact (differs mine).elim
    | rise mine => exact (differs mine).elim
    | wake chan =>
      rcases (machine.procs slot).rouse_state chan with same | ⟨runnable, _⟩
      · exact ⟨same.symm.trans now, Record.rouse_chan ..⟩
      · cases runnable.symm.trans now
    | kill => exact (Record.kill_awake _ now).elim
  · rw [Machine.perform_procs]
    exact (taken.killed_kept slot).imp_right fun called => ⟨self, called⟩
  · have apart : place ≠ cpu := by
      rintro rfl
      cases runs.symm.trans there
      exact differs rfl
    refine ⟨place, ?_, ?_⟩
    · cases switches : move.switches with
      | false =>
        rw [Machine.perform_cpus_stay switches]
        exact there
      | true =>
        rw [Machine.perform_cpus_switch switches, update_of_ne apart]
        exact there
    · rw [Machine.perform_lock_kept]
      · exact held
      · intro acquired
        cases held.symm.trans (acquires _ acquired)
      · intro released
        cases held.symm.trans (releases _ released)
        exact apart rfl

omit [DecidableEq Cpu] [DecidableEq Name] [DecidableEq Chan] in
theorem Spared.of_record (self : Process)
    (phase : (after.threads slot).phase = (machine.threads slot).phase)
    (procs : after.procs = update machine.procs self process)
    (asleep : process.state = .sleeping → (machine.procs self).state = .sleeping ∧ process.chan =
      (machine.procs self).chan) (killed : process.killed = (machine.procs self).killed)
    (locks : ∀ lk, after.lock (.named lk) = machine.lock (.named lk))
    (cpus : ∀ {cpu}, machine.cpus cpu = .runs slot → after.cpus cpu = .runs slot ∨ ∀ lk,
      machine.lock (.named lk) ≠ some cpu) : Spared machine label after slot := by
  refine {
    phase := phase
    asleep := fun now => ?_
    killed := .inl ?_
    holds := fun {lk} ⟨cpu, runs, held⟩ => ?_ }
  · rw [procs] at now ⊢
    by_cases same : slot = self
    · rw [same, update_self] at now ⊢
      exact asleep now
    · rw [update_of_ne same] at now ⊢
      exact ⟨now, rfl⟩
  · rw [procs]
    by_cases same : slot = self
    · rw [same, update_self]
      exact killed
    · rw [update_of_ne same]
  · rcases cpus runs with still | none
    · exact ⟨cpu, still, (locks lk).trans held⟩
    · exact (none lk held).elim

omit [DecidableEq Cpu] [DecidableEq Chan] in
theorem named_kept (self : Process) (holder : Option Cpu) (lk : Name) :
    update machine.lock (.proc self) holder (.named lk) = machine.lock (.named lk) := by
  have apart : (Lock.named lk : Lock Process Name) ≠ .proc self := nofun
  exact update_of_ne apart ..

omit [DecidableEq Cpu] [DecidableEq Name] [DecidableEq Chan] in
theorem phase_kept (here : machine.threads self = ⟨phase, before⟩) (now : Bool) (slot : Process) :
    (update machine.threads self ⟨phase, now⟩ slot).phase = (machine.threads slot).phase := by
  by_cases same : slot = self
  · rw [same, here, update_self]
  · rw [update_of_ne same]

section

variable (taken : machine.Step code label after)

include taken

theorem Machine.Step.split :
    (∃ self cpu before move phase, Takes code machine label after self cpu before move phase) ∨
      after.data = machine.data ∧ ∀ slot, Spared machine label after slot := by
  cases taken with
  | @thread cpu self before phase move runs here taken passes acquires releases _ =>
      exact .inl ⟨self, cpu, before, move, phase, runs, here, taken, passes,
        acquires, releases, rfl, rfl⟩
  | @yield cpu self phase runs here bare free =>
    refine .inr ⟨rfl, fun slot => .of_record self (phase_kept here true slot) rfl nofun rfl
      (named_kept self (some cpu)) ?_⟩
    intro other there
    by_cases same : other = cpu
    · rw [same]
      exact .inr fun lk => bare _
    · exact .inl ((update_of_ne same ..).trans there)
  | @resume cpu self phase runs here =>
    exact .inr ⟨rfl, fun slot => .of_record self (phase_kept here false slot)
      (update_eq_self self machine.procs).symm
      (fun sleeps => ⟨sleeps, rfl⟩) rfl (named_kept self none) (fun there => .inl there)⟩
  | @dispatch cpu self idle runnable free =>
    refine .inr ⟨rfl, fun slot => .of_record self rfl rfl nofun rfl (named_kept self (some cpu)) ?_⟩
    intro other there
    have apart : other ≠ cpu := by
      rintro rfl
      cases idle.symm.trans there
    exact .inl ((update_of_ne apart ..).trans there)
  | @finish cpu self back =>
    refine .inr ⟨rfl, fun slot => .of_record self rfl (update_eq_self self machine.procs).symm
      (fun sleeps => ⟨sleeps, rfl⟩) rfl (named_kept self none) ?_⟩
    intro other there
    have apart : other ≠ cpu := by
      rintro rfl
      cases back.symm.trans there
    exact .inl ((update_of_ne apart ..).trans there)
  | @interrupt visited chan free =>
    refine .inr ⟨rfl, fun slot => .of_record visited rfl rfl
      (fun now => ?_) (Record.rouse_killed ..) (fun _ => rfl) (fun there => .inl there)⟩
    rcases (machine.procs visited).rouse_state chan with
      same | ⟨runnable, _⟩
    · exact ⟨same.symm.trans now, Record.rouse_chan ..⟩
    · cases runnable.symm.trans now

theorem Machine.Step.seen (slot : Process) :
    (∃ cpu before move phase, Takes code machine label after slot cpu before move phase) ∨
      Spared machine label after slot := by
  rcases taken.split with ⟨self, cpu, before, move, phase, takes⟩ | spared
  · by_cases same : slot = self
    · rw [same]
      exact .inl ⟨cpu, before, move, phase, takes⟩
    · exact .inr (takes.spares same)
  · exact .inr (spared.2 slot)

theorem Machine.Step.killed_kept (slot : Process) :
    (after.procs slot).killed = (machine.procs slot).killed ∨ ∃ self, label = .kill self slot := by
  rcases taken.seen slot with ⟨cpu, before, move, phase, takes⟩ | spared
  · obtain ⟨runs, here, moved, _, _, _, rfl, rfl⟩ := takes
    rw [Machine.perform_procs]
    exact (moved.killed_kept slot).imp_right fun called => ⟨slot, called⟩
  · exact spared.killed

end

/-! A process in sleep() comes from a call in its code. -/

def Phase.Comes (code : Point → Instr Process Name Chan Data Point) :
    Phase Process Name Chan Point → Prop
  | .falling chan lk next | .dozing chan lk next | .asleep chan lk next =>
    ∃ point, code point = .sleep chan lk next
  | _ => True

omit [DecidableEq Name] in
theorem ThreadStep.comes (taken : ThreadStep code self procs data before move phase)
    (comes : before.Comes code) : phase.Comes code := by
  cases taken with
  | sleep found => exact ⟨_, found⟩
  | fall => exact comes
  | doze => exact comes
  | _ => trivial

theorem comes_run (boots : machine.Boot start)
    (run : Transition.Run (Machine.Step code) machine labels after) (slot : Process) :
    (after.threads slot).phase.Comes code := by
  refine run.invariant (fun machine => (machine.threads slot).phase.Comes code) ?_ ?_
  · rw [boots.ready slot]
    trivial
  · intro middle label next comes taken
    rcases taken.seen slot with ⟨cpu, before, move, phase, takes⟩ | spared
    · obtain ⟨runs, here, moved, _, _, _, rfl, rfl⟩ := takes
      rw [here] at comes
      rw [Machine.perform_threads_self]
      exact moved.comes comes
    · rw [spared.phase]
      exact comes

/-! sleep() and wakeup(). -/

namespace ThreadStep

variable {procs : Process → Record Chan} {data : Data}
  {before phase : Phase Process Name Chan Point} {move : Move Process Name Chan Data}

section

variable (taken : ThreadStep code self procs data before move phase)

include taken

omit [DecidableEq Name] in
theorem falls_after
    (falls : phase.Falls) : ∃ chan lk, move.label = .sleep self chan lk := by
  cases taken with
  | sleep => exact ⟨_, _, rfl⟩
  | _ => exact falls.elim

omit [DecidableEq Name] in
theorem dozes_after
    (dozes : phase.Dozes) : before.Falls := by
  cases taken with
  | fall => trivial
  | _ => exact dozes.elim

omit [DecidableEq Name] in
theorem switches_from
    (switches : move.switches = true) : before.Dozes := by
  cases taken with
  | doze => trivial
  | _ => cases switches

omit [DecidableEq Name] in
theorem sleeps_after
    (running : (procs self).state = .running) (sleeps : (move.apply procs self).state = .sleeping) :
    before.Dozes := by
  have change := taken.change self
  generalize move.apply procs self = process at change sleeps
  cases change with
  | same => cases running.symm.trans sleeps
  | doze _ switches => exact taken.switches_from switches
  | rise => cases running.symm.trans sleeps
  | wake chan other => exact (other rfl).elim
  | kill => exact (Record.kill_awake _ sleeps).elim

end

end ThreadStep

/-- The process is in no call of sleep() that could still put it to sleep. -/
structure Settled (machine : Machine Process Cpu Name Chan Data Point)
    (slot : Process) (chan : Chan) : Prop where
  falls : ¬(machine.threads slot).phase.Falls
  dozes : ¬(machine.threads slot).phase.Dozes
  awake : ¬(machine.procs slot).SleepsOn chan

/-- Another process is in wakeup(), and has not come to the process or has
woken it. -/
structure Waking (machine : Machine Process Cpu Name Chan Data Point)
    (waker slot : Process) (chan : Chan) : Prop where
  falls : ¬(machine.threads slot).phase.Falls
  visits : ∃ rest next, (machine.threads waker).phase = .waking chan rest next ∧
      (slot ∈ rest ∨ Settled machine slot chan)

omit [FinEnum Process] [DecidableEq Cpu] [DecidableEq Name] [DecidableEq Chan] in
theorem sleeps_of_free (coherent : Coherent machine) (free : machine.lock (.proc slot) = none)
    (owns : (machine.threads slot).phase.Owns) : (machine.threads slot).phase.Sleeps := by
  rcases coherent.placed slot with (yielded | sleeps) | ⟨cpu, runs⟩
  · exact (coherent.yielded yielded owns).elim
  · exact sleeps
  · cases free.symm.trans (coherent.owns runs (.inr owns))

section Calls

variable {chan : Chan} {lk : Name}
  (coherent : Coherent machine) (taken : machine.Step code label after)
  (quiet : ∀ chan lk, label ≠ .sleep slot chan lk)

include coherent taken quiet

omit coherent in
theorem not_falls_step (before : ¬(machine.threads slot).phase.Falls) :
    ¬(after.threads slot).phase.Falls := by
  rcases taken.seen slot with
    ⟨cpu, here, move, phase, takes⟩ | spared
  · obtain ⟨runs, here, moved, _, _, _, rfl, rfl⟩ := takes
    rw [Machine.perform_threads_self]
    intro falls
    obtain ⟨chan, lk, called⟩ := moved.falls_after falls
    exact quiet chan lk called
  · rw [spared.phase]
    exact before

omit coherent in
theorem falls_holds_step (before : (machine.threads slot).phase.Falls → machine.Holds slot lk)
    (falls : (after.threads slot).phase.Falls) : after.Holds slot lk := by
  rcases taken.seen slot with
    ⟨cpu, here, move, phase, takes⟩ | spared
  · obtain ⟨runs, here, moved, _, _, _, rfl, rfl⟩ := takes
    rw [Machine.perform_threads_self] at falls
    obtain ⟨chan, lk, called⟩ := moved.falls_after falls
    exact (quiet chan lk called).elim
  · rw [spared.phase] at falls
    exact spared.holds (before falls)

theorem settled_step (before : Settled machine slot chan) : Settled after slot chan := by
  have falls := not_falls_step taken quiet before.falls
  rcases taken.seen slot with
    ⟨cpu, here, move, phase, takes⟩ | spared
  · obtain ⟨runs, here, moved, _, _, _, rfl, rfl⟩ := takes
    have phases := before.dozes
    have falling := before.falls
    rw [here] at phases falling
    refine ⟨falls, ?_, fun ⟨sleeps, _⟩ => ?_⟩
    · rw [Machine.perform_threads_self]
      exact fun dozes => falling (moved.dozes_after dozes)
    · rw [Machine.perform_procs] at sleeps
      exact phases (moved.sleeps_after (coherent.running runs) sleeps)
  · refine ⟨falls, ?_, fun ⟨sleeps, on⟩ => ?_⟩
    · rw [spared.phase]
      exact before.dozes
    · have ⟨already, same⟩ := spared.asleep sleeps
      exact before.awake ⟨already, same.symm.trans on⟩

theorem waking_step (differs : slot ≠ self) (goes : ∀ chan, label ≠ .woken self chan)
    (before : Waking machine self slot chan) : Waking after self slot chan := by
  have falls := not_falls_step taken quiet before.falls
  have settles : Settled machine slot chan → Settled after slot chan :=
    settled_step coherent taken quiet
  obtain ⟨rest, next, waking, visits⟩ := before.visits
  rcases taken.seen self with
    ⟨cpu, here, move, phase, takes⟩ | spared
  · obtain ⟨runs, there, moved, passes, _, _, rfl, rfl⟩ := takes
    rw [there] at waking
    simp only at waking
    subst waking
    cases moved with
    | @wake target _ _ _ other =>
      refine ⟨falls, _, _, by rw [Machine.perform_threads_self], ?_⟩
      rcases visits with listed | settled
      · rcases List.mem_cons.mp listed with rfl | later
        · refine .inr ⟨falls, ?_, ?_⟩
          · rw [Machine.perform_threads_other differs]
            intro dozes
            exact dozes.not_sleeps (sleeps_of_free coherent (passes _ rfl) dozes.owns)
          · rw [Machine.perform_procs]
            unfold Move.apply
            simp only [update_self]
            exact Record.rouse_awake _ _
        · exact .inl later
      · exact .inr (settles settled)
    | wakeSelf =>
      refine ⟨falls, _, _, by rw [Machine.perform_threads_self], ?_⟩
      rcases visits with listed | settled
      · exact .inl ((List.mem_cons.mp listed).resolve_left differs)
      · exact .inr (settles settled)
    | woken => exact (goes chan rfl).elim
  · refine ⟨falls, rest, next, by rw [spared.phase, waking], ?_⟩
    exact visits.imp_right settles

end Calls

/-! The calls and the returns. -/

section Labels

variable {chan : Chan} {lk : Name} (coherent : Coherent machine)

include coherent

theorem falls_holds_call (taken : machine.Step code (.sleep slot chan lk) after)
    (before : machine.Holds slot lk) : after.Holds slot lk := by
  rcases taken.seen slot with
    ⟨cpu, here, move, phase, takes⟩ | spared
  · obtain ⟨runs, there, moved, _, _, _, called, rfl⟩ := takes
    obtain ⟨place, runs', held⟩ := before
    cases coherent.runs_unique runs runs'
    cases moved with
    | sleep =>
      refine ⟨cpu, runs, (Machine.perform_lock_kept ?_ ?_).trans held⟩
      · intro same
        cases same
      · intro same
        cases same
    | _ => cases called
  · exact spared.holds before

theorem waking_begins (taken : machine.Step code (.wakeup self chan) after)
    (past : ¬(machine.threads slot).phase.Falls) : Waking after self slot chan := by
  have falls := not_falls_step taken nofun past
  generalize called : Label.wakeup self chan = label at taken
  cases taken with
  | @thread cpu actor before phase move runs here moved =>
    cases moved with
    | wakeup =>
      cases called
      exact ⟨falls, _, _, by rw [Machine.perform_threads_self],
        .inl (FinEnum.mem_toList slot)⟩
    | _ => cases called
  | _ => cases called

theorem waking_ends (taken : machine.Step code (.woken self chan) after)
    (before : Waking machine self slot chan) : Settled after slot chan := by
  obtain ⟨rest, next, waking, visits⟩ := before.visits
  have nothing : rest = [] := by
    generalize called : Label.woken self chan = label at taken
    cases taken with
    | @thread cpu actor before phase move runs here moved =>
      cases moved with
      | woken =>
        cases called
        rw [here] at waking
        cases waking
        rfl
      | _ => cases called
    | _ => cases called
  rw [nothing] at visits
  exact settled_step coherent taken nofun (visits.resolve_left nofun)

end Labels

open Transition

/-- The process has called sleep() with the lock, then a holder of the lock has
called wakeup() on the channel, and returned, and the process has not called
sleep() again. -/
structure WokenSince (code : Point → Instr Process Name Chan Data Point)
    (slot waker : Process) (chan : Chan) (lk : Name)
    (called final : Machine Process Cpu Name Chan Data Point) where
  slept : Machine Process Cpu Name Chan Data Point
  issued : Machine Process Cpu Name Chan Data Point
  wakes : Machine Process Cpu Name Chan Data Point
  done : Machine Process Cpu Name Chan Data Point
  woke : Machine Process Cpu Name Chan Data Point
  toWakeup : List (Label Process Name Chan)
  toWoken : List (Label Process Name Chan)
  later : List (Label Process Name Chan)
  sleeper_holds : called.Holds slot lk
  sleeps : called.Step code (.sleep slot chan lk) slept
  first : Run (Machine.Step code) slept toWakeup issued
  waker_holds : issued.Holds waker lk
  begins : issued.Step code (.wakeup waker chan) wakes
  second : Run (Machine.Step code) wakes toWoken done
  /-- It is this call of wakeup() that returns. -/
  inside : ∀ chan, .woken waker chan ∉ toWoken
  ends : done.Step code (.woken waker chan) woke
  third : Run (Machine.Step code) woke later final
  once : ∀ chan lk, .sleep slot chan lk ∉ toWakeup ++ toWoken ++ later

namespace WokenSince

variable {chan : Chan} {lk : Name} {waker : Process}
  {called final : Machine Process Cpu Name Chan Data Point}
  (woken : WokenSince code slot waker chan lk called final)

include woken

theorem spares (part : labels ⊆ woken.toWakeup ++ woken.toWoken ++ woken.later) :
    ∀ event ∈ labels, ∀ chan lk, event ≠ .sleep slot chan lk := by
  rintro event member chan lk rfl
  exact woken.once chan lk (part member)

theorem not_sleeping (differs : slot ≠ waker) (coherent : Coherent called) :
    ¬(final.procs slot).SleepsOn chan := by
  -- From the call on, the process has the lock until it lets it go.
  have falling : Coherent woken.issued ∧ ((woken.issued.threads slot).phase.Falls →
        woken.issued.Holds slot lk) := by
    refine woken.first.along (fun event => ∀ chan lk, event ≠ .sleep slot chan lk)
      (fun machine => Coherent machine ∧
        ((machine.threads slot).phase.Falls → machine.Holds slot lk))
      ⟨coherent.step woken.sleeps, fun _ => ?_⟩ ?_ (woken.spares (by simp))
    · exact falls_holds_call coherent woken.sleeps woken.sleeper_holds
    · intro middle event next quiet ⟨coherent, holds⟩ taken
      exact ⟨coherent.step taken, falls_holds_step taken quiet holds⟩
  have past : ¬(woken.issued.threads slot).phase.Falls := fun falls =>
    differs ((falling.2 falls).exclusive woken.waker_holds)
  have waking : Coherent woken.done ∧ Waking woken.done waker slot chan := by
    refine woken.second.along (fun event =>
      (∀ chan lk, event ≠ .sleep slot chan lk) ∧ ∀ chan, event ≠ .woken waker chan)
      (fun machine => Coherent machine ∧ Waking machine waker slot chan)
      ⟨falling.1.step woken.begins, waking_begins falling.1 woken.begins past⟩
      ?_ (fun event member => ⟨woken.spares (by simp) event member, ?_⟩)
    · intro middle event next ⟨quiet, goes⟩ ⟨coherent, waking⟩ taken
      exact ⟨coherent.step taken, waking_step coherent taken quiet differs goes waking⟩
    · rintro chan rfl
      exact woken.inside chan member
  have settled : Coherent final ∧ Settled final slot chan := by
    refine woken.third.along (fun event => ∀ chan lk, event ≠ .sleep slot chan lk)
      (fun machine => Coherent machine ∧ Settled machine slot chan)
      ⟨waking.1.step woken.ends, waking_ends waking.1 woken.ends waking.2⟩
      ?_ (woken.spares (by simp))
    intro middle event next quiet ⟨coherent, settled⟩ taken
    exact ⟨coherent.step taken, settled_step coherent taken quiet settled⟩
  exact settled.2.awake

end WokenSince

end Xv6Lottery.Sleep
