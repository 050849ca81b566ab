import Xv6Lottery.Interrupt.Migration

/-! The interrupt-enable bit from the first lock of a kernel thread to its
last, whichever CPUs the thread has been on in between. -/

namespace Xv6Lottery.Interrupts

open Function (update_of_ne update_self)

variable {Process Cpu Name : Type}

structure Frame.Born (frame : Frame Process Name) : Prop where
  phase : frame.phase ≠ .unborn
  trapped : frame.trapped ≠ some .unborn

theorem Sound.born (sound : Sound context hart frame) : frame.Born where
  phase same := by
    have holds := sound.holds
    rw [same] at holds
    exact holds
  trapped same := (sound.returns _ same).holds

theorem Local.entry [DecidableEq Process] [DecidableEq Name] {frame left : Frame Process Name}
    (taken : Local self hart frame op after left) (born : frame.Born) :
    left.Born ∧ (left.entry = frame.entry ∨ frame.held = [] ∧ ∃ lk old point, frame.phase =
        .disabling lk old point ∧ left.phase = .spinning lk point) := by
  cases taken with
  | pushOff here =>
    refine ⟨⟨nofun, born.trapped⟩, ?_⟩
    by_cases unlocked : frame.held = []
    · exact .inr ⟨unlocked, _, _, _, here, rfl⟩
    · exact .inl (if_neg unlocked)
  | trap =>
    exact ⟨⟨nofun, fun same => born.phase (Option.some.inj same)⟩, .inl rfl⟩
  | sret trapped =>
    refine ⟨⟨?_, nofun⟩, .inl rfl⟩
    rintro rfl
    exact born.trapped trapped
  | toggle | intrOn => exact ⟨born, .inl rfl⟩
  | _ => exact ⟨⟨nofun, born.trapped⟩, .inl rfl⟩

namespace Machine

variable [DecidableEq Process] [DecidableEq Cpu] [DecidableEq Name]

section Bracket

variable (slot : Process) (machine : Machine Process Cpu Name) (cpu : Cpu)
  (next : Machine Process Cpu Name)

/-- The step is the intr_off() of a process that has no lock and calls
acquire(). -/
structure FirstPush : Prop where
  taken : Step machine cpu next
  runs : machine.current cpu = .proc slot
  unlocked : (machine.running cpu).held = []
  pushes : ∃ lk old point, (machine.running cpu).phase = .disabling lk old point ∧
      (next.running cpu).phase = .spinning lk point

/-- The step is the pop_off() in the release() of the last lock of a
process. -/
structure LastPop : Prop where
  taken : Step machine cpu next
  runs : machine.current cpu = .proc slot
  unlocked : (machine.running cpu).held = []
  pops : ∃ point, (machine.running cpu).phase = .popping point ∧
    (next.running cpu).phase = .here point

/-- A step with which the process does not start over. -/
def Nested : Prop := Step machine cpu next ∧ ¬FirstPush slot machine cpu next

end Bracket

variable {machine next : Machine Process Cpu Name}

theorem acted_running : (machine.acted cpu op after left).running cpu = left :=
  update_self ..

theorem acted_frame_self : (machine.acted cpu op after left).frame (machine.current cpu) = left :=
  update_self ..

theorem acted_hart : (machine.acted cpu op after left).hart cpu = after :=
  update_self ..

theorem acted_frame_other (differs : context ≠ machine.current cpu) :
    (machine.acted cpu op after left).frame context = machine.frame context :=
  update_of_ne differs _ _

theorem FirstPush.entry (first : FirstPush slot machine cpu next) :
    (next.frame (.proc slot)).entry = (machine.hart cpu).sie := by
  obtain ⟨taken, runs, unlocked, lk, old, point, before, after⟩ := first
  cases taken with
  | act moved =>
    rw [acted_running] at after
    rw [← runs]
    change (Machine.running _ cpu).entry = _
    rw [acted_running]
    cases moved with
    | pushOff => exact if_pos unlocked
    | acquire here | take here | release here | popOff here
    | resume here | sret _ here | toggle _ here | intrOn here =>
      cases here.symm.trans before
    | trap => cases after
  | sched _ here => cases here.symm.trans before
  | dispatch _ here => cases here.symm.trans before

theorem FirstPush.born (coherent : machine.Coherent) (first : FirstPush slot machine cpu next) :
    (next.frame (.proc slot)).Born := by
  obtain ⟨taken, runs, _, lk, old, point, before, after⟩ := first
  cases taken with
  | act moved =>
    rw [← runs, acted_frame_self]
    exact (moved.sound (coherent.sound cpu)).born
  | sched _ here => cases here.symm.trans before
  | dispatch _ here => cases here.symm.trans before

theorem LastPop.bit (coherent : machine.Coherent) (last : LastPop slot machine cpu next) :
    (next.hart cpu).sie = (machine.frame (.proc slot)).entry := by
  obtain ⟨taken, runs, unlocked, point, before, after⟩ := last
  have sound := coherent.sound cpu
  have depth : (machine.hart cpu).noff = 1 := by
    rw [sound.count, before, unlocked]
    rfl
  have entry := sound.entry slot runs (by omega)
  rw [before] at entry
  rw [← runs]
  cases taken with
  | act moved =>
    cases moved with
    | popOff _ off =>
      rw [acted_hart]
      refine Eq.trans ?_ entry
      change (if (machine.hart cpu).noff - 1 = 0 ∧ _ then true
        else (machine.hart cpu).sie) = (machine.hart cpu).intena
      rw [depth, off]
      cases (machine.hart cpu).intena <;> rfl
    | acquire here | take here | release here | pushOff here
    | resume here | sret _ here | toggle _ here | intrOn here =>
      cases here.symm.trans before
    | trap on => cases on.symm.trans (sound.off (by omega))
  | sched _ here => cases here.symm.trans before
  | dispatch _ here => cases here.symm.trans before

omit [DecidableEq Name] in
theorem dispatched_entry (born : (machine.frame (.proc slot)).Born)
    (runs : machine.current cpu = .sched cpu)
    (wakes : Wakes (machine.hart cpu).intena (machine.frame (.proc process)) phase entry) :
    ((machine.dispatched cpu process phase entry).frame (.proc slot)).Born ∧
      ((machine.dispatched cpu process phase entry).frame (.proc slot)).entry =
      (machine.frame (.proc slot)).entry := by
  by_cases same : slot = process
  · subst same
    rw [dispatched, swtch_frame_next]
    cases wakes with
    | away => exact ⟨⟨nofun, born.trapped⟩, rfl⟩
    | unborn asleep => exact absurd asleep born.phase
  · have notNext : (.proc slot : Context Process Cpu) ≠ .proc process :=
      fun equal => same (Context.proc.inj equal)
    rw [dispatched, swtch_frame_other notNext (runs ▸ nofun)]
    exact ⟨born, rfl⟩

theorem Nested.entry (born : (machine.frame (.proc slot)).Born)
    (nested : Nested slot machine cpu next) :
    (next.frame (.proc slot)).Born ∧ (next.frame (.proc slot)).entry =
      (machine.frame (.proc slot)).entry := by
  obtain ⟨taken, notFirst⟩ := nested
  have notPush := fun runs unlocked pushes =>
    notFirst ⟨taken, runs, unlocked, pushes⟩
  cases taken with
  | act moved =>
    by_cases runs : machine.current cpu = .proc slot
    · rw [← runs] at born ⊢
      rw [acted_running] at notPush
      obtain ⟨kept, same | ⟨unlocked, pushes⟩⟩ := moved.entry born
      · rw [acted_frame_self]
        exact ⟨kept, same⟩
      · exact absurd pushes (notPush runs unlocked)
    · rw [acted_frame_other (Ne.symm runs)]
      exact ⟨born, rfl⟩
  | sched runs =>
    by_cases same : machine.current cpu = .proc slot
    · rw [parked, ← same, swtch_frame_left (same ▸ nofun)]
      rw [← same] at born
      exact ⟨⟨nofun, born.trapped⟩, rfl⟩
    · have notSched : (.proc slot : Context Process Cpu) ≠ .sched cpu :=
        nofun
      rw [parked, swtch_frame_other notSched (Ne.symm same)]
      exact ⟨born, rfl⟩
  | dispatch runs _ wakes => exact dispatched_entry born runs wakes

namespace Coherent

variable (coherent : machine.Coherent)

include coherent

omit [DecidableEq Process] [DecidableEq Cpu] [DecidableEq Name] in
theorem schedulable (runs : machine.current cpu = .proc slot)
    (here : (machine.running cpu).phase = .here point) (switches : Switches point after) :
    machine.Schedulable cpu slot := by
  have sound := coherent.sound cpu
  rw [runs] at sound
  obtain ⟨held, _⟩ := switches.holds (here ▸ sound.holds)
  have depth : (machine.hart cpu).noff = 1 := by
    rw [sound.count, here, held]
    rfl
  refine ⟨(coherent.locks _ cpu).mpr ?_, depth, sound.off (by omega)⟩
  rw [held]
  exact .head _

omit [DecidableEq Cpu] in
theorem not_panics : ¬machine.Panics cpu := by
  have sound := coherent.sound cpu
  intro panics
  cases panics with
  | acquire here held =>
    have holds := sound.holds
    rw [here] at holds
    exact holds.1 ((coherent.locks _ cpu).mp held)
  | release here calls free =>
    have holds := sound.holds
    rw [here] at holds
    exact free ((coherent.locks _ cpu).mpr (calls.holds holds).1)
  | popOff here bad =>
    have depth : (machine.hart cpu).noff = (machine.running cpu).held.length + 1 := by
      rw [sound.count, here]
      rfl
    have off := sound.off (by omega)
    rcases bad with on | zero
    · cases off.symm.trans on
    · omega
  | sched runs here switches refused =>
    exact refused (coherent.schedulable runs here switches)

end Coherent

/-- While a process is executed no check of acquire(), release(), pop_off() and
sched() panics, and interrupts are off when it has a spinlock. From the first
lock that it takes to the last that it releases, on whichever CPU, the
interrupt-enable bit comes back as it was. -/
theorem interrupt_state_preserved (slot : Process) (run : Transition.Run Step boot labels machine) :
    (∀ cpu, machine.current cpu = .proc slot → ((machine.running cpu).held ≠ [] →
        (machine.hart cpu).sie = false) ∧ (∀ point after, (machine.running cpu).phase =
        .here point → Switches point after → (machine.hart cpu).noff = 1) ∧ ¬machine.Panics cpu) ∧
      ∀ first entered later finish last done, FirstPush slot machine first entered →
      Transition.Run (Nested slot) entered later finish → LastPop slot finish last done →
      (done.hart last).sie = (machine.hart first).sie := by
  have coherent := run_coherent run
  refine ⟨?_, ?_⟩
  · intro cpu runs
    refine ⟨(coherent.sound cpu).off_of_held, ?_, coherent.not_panics⟩
    intro point after here switches
    exact (coherent.schedulable runs here switches).noff
  · intro first entered later finish last done push between pop
    have start := push.taken.coherent coherent
    have kept : finish.Coherent ∧ (finish.frame (.proc slot)).Born ∧
        (finish.frame (.proc slot)).entry = (machine.hart first).sie := by
      refine between.invariant (fun machine' => machine'.Coherent ∧
        (machine'.frame (.proc slot)).Born ∧
          (machine'.frame (.proc slot)).entry = (machine.hart first).sie)
        ⟨start, push.born coherent, push.entry⟩ ?_
      rintro middle cpu after ⟨still, born, same⟩ nested
      obtain ⟨bornAfter, sameAfter⟩ := nested.entry born
      exact ⟨nested.1.coherent still, bornAfter, sameAfter.trans same⟩
    exact (pop.bit kept.1).trans kept.2.2

/-! A process that yields on one of two CPUs and comes back on the other. -/

section Yield

variable {start middle : Machine Unit Bool Empty}

theorem run_step (run : Transition.Run Step start labels middle) (cpu : Bool)
    (taken : Step middle cpu finish) : Transition.Run Step start (labels ++ [cpu]) finish :=
  run.tail taken

def entering (machine : Machine Unit Bool Empty) (cpu : Bool)
    (lk : Lock Unit Empty) (old : Bool) (point : Point Unit Empty) : Machine Unit Bool Empty :=
  machine.acted cpu .none ((machine.hart cpu).pushOff old)
    { machine.running cpu with
      phase := .spinning lk point
      entry := if (machine.running cpu).held = [] then
        (machine.hart cpu).sie else (machine.running cpu).entry }

theorem run_firstPush (run : Transition.Run Step start labels middle) (cpu : Bool)
    (lk : Lock Unit Empty) (old : Bool) (point : Point Unit Empty)
    (runs : middle.current cpu = .proc ()) (unlocked : (middle.running cpu).held = [])
    (here : (middle.running cpu).phase = .disabling lk old point) :
    Transition.Run Step start labels middle ∧ FirstPush () middle cpu
      (middle.entering cpu lk old point) ∧ Transition.Run (Nested ())
      (middle.entering cpu lk old point) [] (middle.entering cpu lk old point) :=
  ⟨run, ⟨.act (.pushOff here) trivial, runs, unlocked, lk, old, point, here,
    congrArg Frame.phase acted_running⟩, .refl⟩

theorem run_lastPop (run : Transition.Run (Nested ()) start labels middle) (cpu : Bool)
    (point : Point Unit Empty) (runs : middle.current cpu = .proc ())
    (unlocked : (middle.running cpu).held = [])
    (here : (middle.running cpu).phase = .popping point) (off : (middle.hart cpu).sie = false)
    (depth : 1 ≤ (middle.hart cpu).noff) :
    ∃ done, Transition.Run (Nested ()) start labels middle ∧ LastPop () middle cpu done :=
  ⟨_, run, .act (.popOff here off depth) trivial, runs, unlocked, point, here,
    congrArg Frame.phase acted_running⟩

theorem run_nested (run : Transition.Run (Nested ()) start labels middle) (cpu : Bool)
    (taken : Step middle cpu finish) (passed : middle.current cpu ≠ .proc () ∨ ∀ lk old point,
      (middle.running cpu).phase ≠ .disabling lk old point) :
    Transition.Run (Nested ()) start (labels ++ [cpu]) finish := by
  refine run.tail ⟨taken, fun first => ?_⟩
  obtain ⟨_, runs, _, lk, old, point, here, _⟩ := first
  rcases passed with other | other
  · exact other runs
  · exact other lk old point here

theorem acquires_loop (cpu : Bool) :
    Acquires (.sched cpu : Context Unit Bool) ([] : List (Lock Unit Empty)) .loop (.proc ())
      (.chosen ()) :=
  .loop rfl

theorem yield_migrates :
    ∃ (machine entered finish done : Machine Unit Bool Empty) (later : List Bool),
      FirstPush () machine false entered ∧ Transition.Run (Nested ()) entered later finish ∧
      LastPop () finish true done ∧ (done.hart true).sie = true := by
  have booted : Transition.Run Step (boot : Machine Unit Bool Empty) [] _ :=
    .refl
  -- scheduler() of the first CPU takes up the new process.
  have on := run_step booted false (.act (.intrOn rfl) trivial)
  have called := run_step on false (.act (.acquire rfl (acquires_loop false)) trivial)
  have pushed := run_step called false (.act (.pushOff rfl) trivial)
  have taken := run_step pushed false (.act (.take rfl) (by exact rfl))
  have born := run_step taken false (.dispatch rfl rfl (.unborn rfl))
  have released := run_step born false (.act (.release rfl (.forkret rfl)) (by exact rfl))
  have popped := run_step released false (.act (.popOff rfl rfl (Nat.le_refl 1)) trivial)
  have yields := run_step popped false (.act (.acquire rfl (.yield rfl)) trivial)
  obtain ⟨run, first, begun⟩ := run_firstPush yields false (.proc ()) true .yieldLocked rfl rfl rfl
  -- It yields, and scheduler() of the second CPU takes it up.
  have locked := run_nested begun false (.act (.take rfl) (by exact rfl))
    (.inr nofun)
  have parked := run_nested locked false (.sched rfl rfl .yield ⟨rfl, rfl, rfl⟩) (.inr nofun)
  have dropped := run_nested parked false (.act (.release rfl .done) (by exact rfl)) (.inl nofun)
  have idle := run_nested dropped false
    (.act (.popOff rfl rfl (Nat.le_refl 1)) trivial) (.inl nofun)
  have calledAgain := run_nested idle true
    (.act (.acquire rfl (acquires_loop true)) trivial) (.inl nofun)
  have pushedAgain := run_nested calledAgain true (.act (.pushOff rfl) trivial) (.inl nofun)
  have takenAgain := run_nested pushedAgain true (.act (.take rfl) (by exact rfl)) (.inl nofun)
  have back := run_nested takenAgain true (.dispatch rfl rfl (.away rfl)) (.inl nofun)
  have resumed := run_nested back true (.act (.resume rfl) trivial) (.inr nofun)
  have unlocked := run_nested resumed true
    (.act (.release rfl (.yield rfl)) (by exact rfl)) (.inr nofun)
  obtain ⟨done, between, last⟩ := run_lastPop unlocked true .code rfl rfl rfl rfl (Nat.le_refl 1)
  exact ⟨_, _, _, done, _, first, between, last,
    (interrupt_state_preserved () run).2 _ _ _ _ _ _ first between last⟩

end Yield

end Machine

end Xv6Lottery.Interrupts
