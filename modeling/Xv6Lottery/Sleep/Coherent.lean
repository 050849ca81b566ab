import Xv6Lottery.Sleep.Machine

/-! Which lock each thread holds, where each process runs, and which threads
sleep. -/

namespace Xv6Lottery.Sleep

open Function

variable {Process Cpu Name Chan Data Point : Type}

def Phase.Owns : Phase Process Name Chan Point → Prop
  | .falling _ _ _ | .dozing _ _ _ | .asleep _ _ _ => True
  | _ => False

def Phase.Sleeps : Phase Process Name Chan Point → Prop
  | .asleep _ _ _ => True
  | _ => False

namespace Thread

def Owns (thread : Thread Process Name Chan Point) : Prop :=
  thread.yielded = true ∨ thread.phase.Owns

def Away (thread : Thread Process Name Chan Point) : Prop :=
  thread.yielded = true ∨ thread.phase.Sleeps

theorem Away.owns {thread : Thread Process Name Chan Point} (away : thread.Away) : thread.Owns := by
  rcases away with yielded | sleeps
  · exact .inl yielded
  · refine .inr ?_
    generalize thread.phase = phase at sleeps
    cases phase <;> trivial

end Thread

namespace Record

section Rouse

variable [DecidableEq Chan] (process : Record Chan) (chan : Chan)

theorem rouse_state :
    (process.rouse chan).state = process.state ∨ (process.rouse chan).state = .runnable ∧
      process.state = .sleeping := by
  unfold rouse
  split
  next found => exact .inr ⟨rfl, found.1⟩
  next => exact .inl rfl

theorem rouse_chan : (process.rouse chan).chan = process.chan := by
  unfold rouse
  split <;> rfl

theorem rouse_killed : (process.rouse chan).killed = process.killed := by
  unfold rouse
  split <;> rfl

theorem rouse_awake :
    ¬((process.rouse chan).state = .sleeping ∧ (process.rouse chan).chan = some chan) := by
  unfold rouse
  split
  · nofun
  next other => exact other

end Rouse

variable (process : Record Chan)

theorem kill_state :
    process.kill.state = process.state ∨ process.kill.state = .runnable ∧ process.state =
      .sleeping := by
  unfold kill
  dsimp only
  split
  next found => exact .inr ⟨rfl, found⟩
  next => exact .inl rfl

theorem kill_awake : process.kill.state ≠ .sleeping := by
  unfold kill
  dsimp only
  split
  · nofun
  next other => exact other

end Record

/-! What a step of a thread can do. -/

inductive Change [DecidableEq Chan] (self slot : Process) (before : Record Chan) :
    Move Process Name Chan Data → Phase Process Name Chan Point → Record Chan → Prop
  | same : Change self slot before move after before
  | doze : slot = self → move.switches = true → Change self slot before move (.asleep chan lk next)
        (before.doze chan)
  | rise : slot = self → ¬after.Owns →
      Change self slot before move after { before with chan := none }
  | wake (chan : Chan) : slot ≠ self → move.passes = some (.proc slot) →
      Change self slot before move (.waking chan rest next) (before.rouse chan)
  | kill : move.label = .kill self slot → move.passes = some (.proc slot) →
      Change self slot before move after before.kill

namespace ThreadStep

variable [FinEnum Process] [DecidableEq Chan]
  {code : Point → Instr Process Name Chan Data Point} {self slot : Process}
  {procs : Process → Record Chan} {data : Data} {before after : Phase Process Name Chan Point}
  {move : Move Process Name Chan Data} {process : Record Chan}

section

variable (taken : ThreadStep code self procs data before move after)

include taken

theorem acquires_own
    (acquires : move.acquires = some (.proc slot)) : slot = self ∧ after.Owns := by
  cases taken <;> first | (cases acquires; exact ⟨rfl, trivial⟩) | cases acquires

theorem releases_own
    (releases : move.releases = some (.proc slot)) : slot = self ∧ before.Sleeps ∧ ¬after.Owns := by
  cases taken <;> first | (cases releases; exact ⟨rfl, trivial, id⟩) | cases releases

theorem owns_after (owns : after.Owns) :
    move.acquires = some (.proc self) ∨ before.Owns ∧ move.releases ≠ some (.proc self) := by
  cases taken with
  | sleep => exact .inl rfl
  | fall => exact .inr ⟨trivial, nofun⟩
  | doze => exact .inr ⟨trivial, nofun⟩
  | _ => exact owns.elim

theorem switches_off :
    move.switches = true ↔ after.Sleeps := by
  cases taken <;> first
    | exact ⟨fun _ => trivial, fun _ => rfl⟩
    | exact ⟨nofun, False.elim⟩

end

end ThreadStep

def Move.apply [DecidableEq Process]
    (move : Move Process Name Chan Data) (procs : Process → Record Chan) : Process → Record Chan :=
  match move.changes with
  | some (slot, process) => update procs slot process
  | none => procs

theorem ThreadStep.change [FinEnum Process] [DecidableEq Chan]
    {move : Move Process Name Chan Data}
    (taken : ThreadStep code self procs data before move after) (slot : Process) :
    Change self slot (procs slot) move after (move.apply procs slot) := by
  cases taken with
  | doze =>
    unfold Move.apply
    by_cases mine : slot = self
    · subst mine
      simp only [update_self]
      exact .doze rfl rfl
    · simp only [update_of_ne mine]
      exact .same
  | rise =>
    unfold Move.apply
    by_cases mine : slot = self
    · subst mine
      simp only [update_self]
      exact .rise rfl id
    · simp only [update_of_ne mine]
      exact .same
  | @wake target _ _ _ other =>
    unfold Move.apply
    by_cases visited : slot = target
    · subst visited
      simp only [update_self]
      exact .wake _ other rfl
    · simp only [update_of_ne visited]
      exact .same
  | @killHit target _ _ _ _ =>
    unfold Move.apply
    by_cases visited : slot = target
    · subst visited
      simp only [update_self]
      exact .kill rfl rfl
    · simp only [update_of_ne visited]
      exact .same
  | _ => exact .same

/-! Locks, CPUs and sleepers. -/

structure Coherent (machine : Machine Process Cpu Name Chan Data Point) : Prop where
  unique : ∀ {cpu other slot}, (machine.cpus cpu).proc = some slot →
    (machine.cpus other).proc = some slot → cpu = other
  running : ∀ {cpu slot}, machine.cpus cpu = .runs slot → (machine.procs slot).state = .running
  owns : ∀ {cpu slot}, machine.cpus cpu = .runs slot →
    (machine.threads slot).Owns → machine.lock (.proc slot) = some cpu
  back : ∀ {cpu slot}, machine.cpus cpu = .back slot →
    machine.lock (.proc slot) = some cpu ∧ (machine.threads slot).Away
  placed : ∀ slot, (machine.threads slot).Away ∨ ∃ cpu, machine.cpus cpu = .runs slot
  yielded : ∀ {slot}, (machine.threads slot).yielded = true → ¬(machine.threads slot).phase.Owns
  asleep : ∀ {slot}, (machine.procs slot).state = .sleeping →
    ∃ chan lk next, machine.threads slot = ⟨.asleep chan lk next, false⟩ ∧
      (machine.procs slot).chan = some chan

namespace Machine

variable [DecidableEq Process] [DecidableEq Cpu] [DecidableEq Name]
  {machine : Machine Process Cpu Name Chan Data Point} {cpu : Cpu}
  {self slot : Process} {move : Move Process Name Chan Data} {phase : Phase Process Name Chan Point}

@[simp] theorem perform_procs : (machine.perform cpu self move phase).procs =
      move.apply machine.procs := rfl

@[simp] theorem perform_threads_self :
    (machine.perform cpu self move phase).threads self = ⟨phase, false⟩ :=
  update_self ..

theorem perform_threads_other (differs : slot ≠ self) :
    (machine.perform cpu self move phase).threads slot = machine.threads slot :=
  update_of_ne differs ..

theorem perform_cpus_stay (stays : move.switches = false) :
    (machine.perform cpu self move phase).cpus = machine.cpus := by
  simp [perform, stays]

theorem perform_cpus_switch (switches : move.switches = true) :
    (machine.perform cpu self move phase).cpus = update machine.cpus cpu (.back self) := by
  simp [perform, switches]

theorem perform_lock_kept {lock : Lock Process Name} (acquires : move.acquires ≠ some lock)
    (releases : move.releases ≠ some lock) :
    (machine.perform cpu self move phase).lock lock = machine.lock lock := by
  simp [perform, acquires, releases]

theorem perform_cpus_proc (runs : machine.cpus cpu = .runs self) (other : Cpu) :
    ((machine.perform cpu self move phase).cpus other).proc = (machine.cpus other).proc := by
  cases switches : move.switches with
  | false => rw [perform_cpus_stay switches]
  | true =>
    rw [perform_cpus_switch switches]
    by_cases same : other = cpu
    · rw [same, update_self, runs]
      rfl
    · rw [update_of_ne same]

theorem perform_runs (runs : (machine.perform cpu self move phase).cpus other = .runs slot) :
    machine.cpus other = .runs slot ∧ (move.switches = true → other ≠ cpu) := by
  cases switches : move.switches with
  | false =>
    rw [perform_cpus_stay switches] at runs
    exact ⟨runs, nofun⟩
  | true =>
    rw [perform_cpus_switch switches] at runs
    have differs : other ≠ cpu := by
      rintro rfl
      rw [update_self] at runs
      cases runs
    rw [update_of_ne differs] at runs
    exact ⟨runs, fun _ => differs⟩

theorem perform_back (back : (machine.perform cpu self move phase).cpus other = .back slot) :
    machine.cpus other = .back slot ∨ move.switches = true ∧ other = cpu ∧ slot = self := by
  cases switches : move.switches with
  | false =>
    rw [perform_cpus_stay switches] at back
    exact .inl back
  | true =>
    rw [perform_cpus_switch switches] at back
    by_cases same : other = cpu
    · subst same
      rw [update_self] at back
      cases back
      exact .inr ⟨rfl, rfl, rfl⟩
    · rw [update_of_ne same] at back
      exact .inl back

end Machine

namespace Coherent

variable {machine : Machine Process Cpu Name Chan Data Point}
  {cpu other : Cpu} {self slot : Process}

theorem boot (boots : machine.Boot start) : Coherent machine where
  unique := by
    intro cpu other slot here
    rw [boots.idle cpu] at here
    cases here
  running := fun {cpu slot} runs => nomatch (boots.idle cpu).symm.trans runs
  owns := fun {cpu slot} runs => nomatch (boots.idle cpu).symm.trans runs
  back := fun {cpu slot} back => nomatch (boots.idle cpu).symm.trans back
  placed := fun slot => .inl (.inl (by rw [boots.ready slot]))
  yielded := by
    intro slot _
    rw [boots.ready slot]
    exact id
  asleep := fun {slot} sleeps =>
    nomatch (boots.runnable slot).symm.trans sleeps

theorem runs_unique (coherent : Coherent machine) (here : machine.cpus cpu = .runs slot)
    (there : machine.cpus other = .runs slot) : cpu = other :=
  coherent.unique (by rw [here]; rfl) (by rw [there]; rfl)

theorem not_back (coherent : Coherent machine) (here : machine.cpus cpu = .runs slot) :
    machine.cpus other ≠ .back slot := by
  intro there
  have first : (machine.cpus cpu).proc = some slot := by rw [here]; rfl
  have second : (machine.cpus other).proc = some slot := by rw [there]; rfl
  have same := coherent.unique first second
  rw [same, there] at here
  cases here

theorem off_cpu (coherent : Coherent machine) (runnable : (machine.procs slot).state = .runnable)
    (free : machine.lock (.proc slot) = none) (cpu : Cpu) :
    (machine.cpus cpu).proc ≠ some slot := by
  intro here
  cases point : machine.cpus cpu with
  | idle =>
    rw [point] at here
    cases here
  | runs other =>
    rw [point] at here
    cases here
    cases runnable.symm.trans (coherent.running point)
  | back other =>
    rw [point] at here
    cases here
    cases free.symm.trans (coherent.back point).1

variable [FinEnum Process] [DecidableEq Cpu] [DecidableEq Name]

section Thread

variable [DecidableEq Chan] {code : Point → Instr Process Name Chan Data Point}
  {before after : Phase Process Name Chan Point} {move : Move Process Name Chan Data}

theorem thread (coherent : Coherent machine) (runs : machine.cpus cpu = .runs self)
    (here : machine.threads self = ⟨before, false⟩)
    (taken : ThreadStep code self machine.procs machine.data before move after) :
    Coherent (machine.perform cpu self move after) := by
  have locks : ∀ {slot}, slot ≠ self → (machine.perform cpu self move after).lock (.proc slot) =
        machine.lock (.proc slot) := by
    intro slot differs
    exact Machine.perform_lock_kept (fun acquires => differs (taken.acquires_own acquires).1)
      (fun releases => differs (taken.releases_own releases).1)
  have mine : after.Owns → (machine.perform cpu self move after).lock (.proc self) = some cpu := by
    intro owns
    have kept : move.releases ≠ some (.proc self) := fun releases =>
      (taken.releases_own releases).2.2 owns
    by_cases acquires : move.acquires = some (.proc self)
    · simp [Machine.perform, kept, acquires]
    · rw [Machine.perform_lock_kept acquires kept]
      refine coherent.owns runs (.inr ?_)
      rw [here]
      exact ((taken.owns_after owns).resolve_left acquires).1
  have state := coherent.running runs
  refine {
    unique := fun {first second slot} => ?_
    running := fun {other slot} now => ?_
    owns := fun {other slot} now owns => ?_
    back := fun {other slot} now => ?_
    placed := fun slot => ?_
    yielded := fun {slot} yielded => ?_
    asleep := fun {slot} now => ?_ }
  · rw [Machine.perform_cpus_proc runs, Machine.perform_cpus_proc runs]
    exact coherent.unique
  · obtain ⟨there, stays⟩ := Machine.perform_runs now
    have before := coherent.running there
    have change := taken.change slot
    rw [Machine.perform_procs]
    generalize move.apply machine.procs slot = process at change
    cases change with
    | same => exact before
    | doze own switches =>
      subst own
      exact (stays switches (coherent.runs_unique there runs)).elim
    | rise => exact before
    | wake chan =>
      rcases (machine.procs slot).rouse_state chan with same | ⟨_, sleeps⟩
      · rw [same]
        exact before
      · cases sleeps.symm.trans before
    | kill =>
      rcases (machine.procs slot).kill_state with same | ⟨_, sleeps⟩
      · rw [same]
        exact before
      · cases sleeps.symm.trans before
  · obtain ⟨there, stays⟩ := Machine.perform_runs now
    by_cases same : slot = self
    · subst same
      rw [coherent.runs_unique there runs]
      rw [Machine.perform_threads_self] at owns
      exact mine (owns.resolve_left nofun)
    · rw [Machine.perform_threads_other same] at owns
      rw [locks same]
      exact coherent.owns there owns
  · rcases Machine.perform_back now with there | ⟨switches, rfl, rfl⟩
    · have differs : slot ≠ self := by
        rintro rfl
        exact coherent.not_back runs there
      rw [locks differs, Machine.perform_threads_other differs]
      exact coherent.back there
    · have sleeps := taken.switches_off.mp switches
      rw [Machine.perform_threads_self]
      have away : (⟨after, false⟩ : Thread _ _ _ _).Away := .inr sleeps
      exact ⟨mine (away.owns.resolve_left nofun), away⟩
  · by_cases same : slot = self
    · subst same
      cases switches : move.switches with
      | true =>
        rw [Machine.perform_threads_self]
        exact .inl (.inr (taken.switches_off.mp switches))
      | false =>
        rw [Machine.perform_cpus_stay switches]
        exact .inr ⟨cpu, runs⟩
    · rw [Machine.perform_threads_other same]
      rcases coherent.placed slot with away | ⟨place, there⟩
      · exact .inl away
      · refine .inr ⟨place, ?_⟩
        have differs : place ≠ cpu := by
          rintro rfl
          rw [runs] at there
          cases there
          exact same rfl
        cases switches : move.switches with
        | true =>
          rw [Machine.perform_cpus_switch switches, update_of_ne differs]
          exact there
        | false =>
          rw [Machine.perform_cpus_stay switches]
          exact there
  · have differs : slot ≠ self := by
      rintro rfl
      rw [Machine.perform_threads_self] at yielded
      cases yielded
    rw [Machine.perform_threads_other differs] at yielded ⊢
    exact coherent.yielded yielded
  · have awake : ∀ {slot}, (machine.procs slot).state = .sleeping → slot ≠ self := by
      intro slot sleeps same
      rw [same] at sleeps
      cases state.symm.trans sleeps
    have change := taken.change slot
    rw [Machine.perform_procs] at now ⊢
    generalize move.apply machine.procs slot = process at change now
    cases change with
    | same =>
      rw [Machine.perform_threads_other (awake now)]
      exact coherent.asleep now
    | doze own =>
      rw [own, Machine.perform_threads_self]
      exact ⟨_, _, _, rfl, rfl⟩
    | rise own => exact (awake now own).elim
    | wake chan =>
      rcases (machine.procs slot).rouse_state chan with same | ⟨runnable, _⟩
      · rw [same] at now
        rw [Machine.perform_threads_other (awake now), Record.rouse_chan]
        exact coherent.asleep now
      · cases runnable.symm.trans now
    | kill => exact (Record.kill_awake _ now).elim

end Thread

/-! scheduler() and yield(). -/

omit [DecidableEq Name] in
theorem reseat (coherent : Coherent machine) (cpu : Cpu) (self : Process)
    {after : Machine Process Cpu Name Chan Data Point}
    (procs : ∀ {slot}, slot ≠ self → after.procs slot = machine.procs slot)
    (threads : ∀ {slot}, slot ≠ self → after.threads slot = machine.threads slot)
    (locks : ∀ {slot}, slot ≠ self → after.lock (.proc slot) = machine.lock (.proc slot))
    (cpus : ∀ {other}, other ≠ cpu → after.cpus other = machine.cpus other)
    (alone : ∀ {other}, other ≠ cpu → (machine.cpus other).proc ≠ some self)
    (before : ∀ {slot}, (machine.cpus cpu).proc = some slot → slot = self)
    (place : ∀ {slot}, (after.cpus cpu).proc = some slot → slot = self)
    (running : after.cpus cpu = .runs self → (after.procs self).state = .running)
    (owns : after.cpus cpu = .runs self → (after.threads self).Owns → after.lock (.proc self) =
      some cpu) (back : after.cpus cpu = .back self → after.lock (.proc self) = some cpu ∧
      (after.threads self).Away)
    (placed : (after.threads self).Away ∨ after.cpus cpu = .runs self)
    (yielded : (after.threads self).yielded = true → ¬(after.threads self).phase.Owns)
    (asleep : (after.procs self).state = .sleeping → ∃ chan lk next, after.threads self =
      ⟨.asleep chan lk next, false⟩ ∧ (after.procs self).chan = some chan) : Coherent after := by
  have apart : ∀ {other slot}, other ≠ cpu →
      (machine.cpus other).proc = some slot → slot ≠ self := by
    rintro other slot differs there rfl
    exact alone differs there
  refine {
    unique := fun {first second slot} one two => ?_
    running := fun {other slot} there => ?_
    owns := fun {other slot} there has => ?_
    back := fun {other slot} there => ?_
    placed := fun slot => ?_
    yielded := fun {slot} has => ?_
    asleep := fun {slot} now => ?_ }
  · by_cases here : first = cpu
    · by_cases there : second = cpu
      · rw [here, there]
      · rw [here] at one
        rw [cpus there] at two
        exact (apart there two (place one)).elim
    · rw [cpus here] at one
      by_cases there : second = cpu
      · rw [there] at two
        exact (apart here one (place two)).elim
      · rw [cpus there] at two
        exact coherent.unique one two
  · by_cases here : other = cpu
    · rw [here] at there
      have same : slot = self := place (by rw [there]; rfl)
      rw [same] at there ⊢
      exact running there
    · rw [cpus here] at there
      rw [procs (apart here (by rw [there]; rfl))]
      exact coherent.running there
  · by_cases here : other = cpu
    · rw [here] at there ⊢
      have same : slot = self := place (by rw [there]; rfl)
      rw [same] at there has ⊢
      exact owns there has
    · rw [cpus here] at there
      have differs := apart here (by rw [there]; rfl)
      rw [threads differs] at has
      rw [locks differs]
      exact coherent.owns there has
  · by_cases here : other = cpu
    · rw [here] at there ⊢
      have same : slot = self := place (by rw [there]; rfl)
      rw [same] at there ⊢
      exact back there
    · rw [cpus here] at there
      have differs := apart here (by rw [there]; rfl)
      rw [threads differs, locks differs]
      exact coherent.back there
  · by_cases same : slot = self
    · rw [same]
      exact placed.imp_right fun there => ⟨cpu, there⟩
    · rw [threads same]
      refine (coherent.placed slot).imp_right fun ⟨other, there⟩ => ?_
      have differs : other ≠ cpu := by
        rintro rfl
        exact same (before (by rw [there]; rfl))
      exact ⟨other, (cpus differs).trans there⟩
  · by_cases same : slot = self
    · rw [same] at has ⊢
      exact yielded has
    · rw [threads same] at has ⊢
      exact coherent.yielded has
  · by_cases same : slot = self
    · rw [same] at now ⊢
      exact asleep now
    · rw [procs same] at now ⊢
      rw [threads same]
      exact coherent.asleep now

omit [FinEnum Process] [DecidableEq Name] in
theorem proc_ne (differs : slot ≠ self) : (Lock.proc slot : Lock Process Name) ≠ .proc self := by
  intro same
  cases same
  exact differs rfl

omit [DecidableEq Cpu] [DecidableEq Name] in
theorem touch (coherent : Coherent machine) (state : process.state = (machine.procs slot).state ∨
      process.state = .runnable ∧ (machine.procs slot).state = .sleeping)
    (chan : process.chan = (machine.procs slot).chan) :
    Coherent (machine.setProc slot process) := by
  have there : ∀ {other}, other ≠ slot →
      (machine.setProc slot process).procs other = machine.procs other :=
    fun differs => update_of_ne differs ..
  have here : (machine.setProc slot process).procs slot = process :=
    update_self ..
  refine {
    unique := coherent.unique
    running := fun {cpu other} runs => ?_
    owns := coherent.owns
    back := coherent.back
    placed := coherent.placed
    yielded := coherent.yielded
    asleep := fun {other} now => ?_ }
  · have before := coherent.running runs
    by_cases same : other = slot
    · rw [same] at before ⊢
      rw [here]
      rcases state with state | ⟨_, sleeps⟩
      · rw [state]
        exact before
      · cases sleeps.symm.trans before
    · rw [there same]
      exact before
  · by_cases same : other = slot
    · rw [same, here] at now ⊢
      rcases state with state | ⟨runnable, _⟩
      · rw [chan]
        exact coherent.asleep (state.symm.trans now)
      · cases runnable.symm.trans now
    · rw [there same] at now ⊢
      exact coherent.asleep now

section Scheduler

variable {phase : Phase Process Name Chan Point}

section

variable (coherent : Coherent machine)

include coherent

theorem yield (runs : machine.cpus cpu = .runs self)
    (here : machine.threads self = ⟨phase, false⟩) (free : machine.lock (.proc self) = none) :
    Coherent ((((machine.setLock (.proc self) (some cpu)).setProc self
      { machine.procs self with state := .runnable }).setCpu cpu
      (.back self)).setThread self ⟨phase, true⟩) := by
  have thread : update machine.threads self ⟨phase, true⟩ self = ⟨phase, true⟩ := update_self ..
  have phases : ¬phase.Owns := by
    intro owns
    have mine : (machine.threads self).Owns := by
      rw [here]
      exact .inr owns
    cases free.symm.trans (coherent.owns runs mine)
  have cpus : update machine.cpus cpu (.back self) cpu = .back self := update_self ..
  refine coherent.reseat cpu self (fun differs => update_of_ne differs ..)
    (fun differs => update_of_ne differs ..) (fun differs => update_of_ne (proc_ne differs) ..)
    (fun differs => update_of_ne differs ..)
    (fun {other} differs there => differs (coherent.unique there ?_))
    (fun there => ?_) (fun there => ?_) (fun now => nomatch cpus.symm.trans now)
    (fun now => nomatch cpus.symm.trans now) (fun _ => ⟨update_self .., .inl ?_⟩) (.inl (.inl ?_))
    (fun _ => ?_) (fun now => ?_)
  · rw [runs]
    rfl
  · rw [runs] at there
    cases there
    rfl
  · cases (congrArg CpuPoint.proc cpus).symm.trans there
    rfl
  · exact congrArg Thread.yielded thread
  · exact congrArg Thread.yielded thread
  · change ¬(update machine.threads self ⟨phase, true⟩ self).phase.Owns
    rw [thread]
    exact phases
  · have state := congrArg Record.state (update_self self
      { machine.procs self with state := .runnable } machine.procs)
    cases state.symm.trans now

theorem resume (runs : machine.cpus cpu = .runs self)
    (here : machine.threads self = ⟨phase, true⟩) :
    Coherent ((machine.setLock (.proc self) none).setThread self ⟨phase, false⟩) := by
  have thread : update machine.threads self ⟨phase, false⟩ self = ⟨phase, false⟩ := update_self ..
  have phases : ¬phase.Owns := by
    have yielded : (machine.threads self).yielded = true := by rw [here]
    have phases := coherent.yielded yielded
    rw [here] at phases
    exact phases
  refine coherent.reseat cpu self (fun _ => rfl) (fun differs => update_of_ne differs ..)
    (fun differs => update_of_ne (proc_ne differs) ..) (fun _ => rfl)
    (fun {other} differs there => differs (coherent.unique there ?_))
    (fun there => ?_) (fun there => ?_) (fun _ => coherent.running runs) (fun _ owns => ?_)
    (fun now => nomatch runs.symm.trans now) (.inr runs) (fun now => ?_) (fun now => ?_)
  · rw [runs]
    rfl
  · rw [runs] at there
    cases there
    rfl
  · cases (congrArg CpuPoint.proc runs).symm.trans there
    rfl
  · change (update machine.threads self ⟨phase, false⟩ self).Owns at owns
    rw [thread] at owns
    exact (phases (owns.resolve_left nofun)).elim
  · cases (congrArg Thread.yielded thread).symm.trans now
  · cases (coherent.running runs).symm.trans now

theorem dispatch (idle : machine.cpus cpu = .idle)
    (runnable : (machine.procs self).state = .runnable) (free : machine.lock (.proc self) = none) :
    Coherent (((machine.setLock (.proc self) (some cpu)).setProc self
      { machine.procs self with state := .running }).setCpu cpu (.runs self)) := by
  have cpus : update machine.cpus cpu (.runs self) cpu = .runs self := update_self ..
  have state := congrArg Record.state (update_self self
    { machine.procs self with state := .running } machine.procs)
  refine coherent.reseat cpu self (fun differs => update_of_ne differs ..) (fun _ => rfl)
    (fun differs => update_of_ne (proc_ne differs) ..) (fun differs => update_of_ne differs ..)
    (fun {other} _ => coherent.off_cpu runnable free other) (fun there => ?_) (fun there => ?_)
    (fun _ => state) (fun _ _ => update_self ..)
    (fun now => nomatch cpus.symm.trans now) (.inr cpus)
    coherent.yielded (fun now => nomatch state.symm.trans now)
  · rw [idle] at there
    cases there
  · cases (congrArg CpuPoint.proc cpus).symm.trans there
    rfl

theorem finish (back : machine.cpus cpu = .back self) :
    Coherent ((machine.setLock (.proc self) none).setCpu cpu .idle) := by
  have cpus : update machine.cpus cpu .idle cpu = .idle :=
    update_self ..
  refine coherent.reseat cpu self (fun _ => rfl) (fun _ => rfl)
    (fun differs => update_of_ne (proc_ne differs) ..) (fun differs => update_of_ne differs ..)
    (fun {other} differs there => differs (coherent.unique there ?_))
    (fun there => ?_) (fun there => ?_) (fun now => nomatch cpus.symm.trans now)
    (fun now => nomatch cpus.symm.trans now) (fun now => nomatch cpus.symm.trans now)
    (.inl (coherent.back back).2) coherent.yielded coherent.asleep
  · rw [back]
    rfl
  · rw [back] at there
    cases there
    rfl
  · cases (congrArg CpuPoint.proc cpus).symm.trans there

end

end Scheduler

variable [DecidableEq Chan] {code : Point → Instr Process Name Chan Data Point}
  {after : Machine Process Cpu Name Chan Data Point} {label : Label Process Name Chan}

theorem step (coherent : Coherent machine)
    (taken : machine.Step code label after) : Coherent after := by
  cases taken with
  | thread runs here taken => exact coherent.thread runs here taken
  | yield runs here _ free => exact coherent.yield runs here free
  | resume runs here => exact coherent.resume runs here
  | dispatch idle runnable free =>
    exact coherent.dispatch idle runnable free
  | finish back => exact coherent.finish back
  | interrupt free =>
    exact coherent.touch (Record.rouse_state ..) (Record.rouse_chan ..)

end Coherent

end Xv6Lottery.Sleep
