import Xv6Lottery.Proc.Dispatch

namespace Xv6Lottery

open Function

/-! The round-robin sweep of one CPU: what is left of its pass, followed by
the whole table, is the order in which it will come to the slots. -/

def SchedPoint.rest : SchedPoint → Option (List Slot)
  | .top => some []
  | .roundRobin remaining
  | .running _ (.roundRobin remaining)
  | .back _ (.roundRobin remaining) => some remaining
  | _ => none

/-- The sweep comes to the first slot before it comes to the second. -/
def Ahead (first second : Slot) (sweep : List Slot) : Prop :=
  ∃ earlier later, sweep = earlier ++ first :: later ∧ second ∉ earlier

theorem Ahead.append (ahead : Ahead first second sweep)
    (next : List Slot) : Ahead first second (sweep ++ next) := by
  obtain ⟨earlier, later, rfl, fresh⟩ := ahead
  exact ⟨earlier, later ++ next, by simp, fresh⟩

theorem Ahead.passed (ahead : Ahead first second (slot :: sweep))
    (differs : slot ≠ first) : Ahead first second sweep := by
  obtain ⟨earlier, later, split, fresh⟩ := ahead
  cases earlier with
  | nil =>
    cases split
    exact absurd rfl differs
  | cons head earlier =>
    cases split
    exact ⟨earlier, later, rfl, fun old => fresh (.tail _ old)⟩

theorem Ahead.not_head (differs : first ≠ second) : ¬Ahead first second (second :: sweep) := by
  rintro ⟨earlier, later, split, fresh⟩
  cases earlier with
  | nil =>
    cases split
    exact differs rfl
  | cons head earlier =>
    cases split
    exact fresh (.head _)

theorem ahead_after (split : slots = done ++ second :: rest)
    (differs : first ≠ second) : Ahead first second (rest ++ slots) := by
  have distinct : (done ++ second :: rest).Nodup :=
    split ▸ List.nodup_finRange nproc
  have freshRest : second ∉ rest :=
    (List.nodup_cons.mp (List.nodup_append.mp distinct).2.1).1
  have freshDone : second ∉ done := fun member =>
    (List.nodup_append.mp distinct).2.2 second member second (.head _) rfl
  have found : first ∈ done ++ second :: rest := split ▸ mem_slots first
  rcases List.mem_append.mp found with member | member
  · obtain ⟨earlier, later, rfl⟩ := List.append_of_mem member
    refine ⟨rest ++ earlier, later ++ second :: rest, ?_, ?_⟩
    · rw [split]
      simp
    · intro member
      rcases List.mem_append.mp member with member | member
      · exact freshRest member
      · exact freshDone (List.mem_append_left _ member)
  · rcases List.mem_cons.mp member with same | member
    · exact absurd same differs
    · obtain ⟨earlier, later, rfl⟩ := List.append_of_mem member
      refine ⟨earlier, later ++ slots, by simp, fun member => ?_⟩
      exact freshRest (List.mem_append_left _ member)

theorem LifeEvent.runnable_apply {event : LifeEvent} (legal : event.Legal table)
    (ready : (table slot).state = .runnable)
    (undispatched : ∀ lottery, event ≠ .dispatch slot lottery) :
    (event.apply table slot).state = .runnable := by
  rcases edge_apply legal slot with same | edge
  · exact same.trans ready
  · rw [ready] at edge
    generalize (event.apply table slot).state = after at edge
    cases edge
    exact absurd rfl (undispatched _)

theorem SchedStep.rest_cases (moved : SchedStep table 0 seed point event tested stored after)
    (sweeping : point.rest = some rest) :
    after.rest = some rest ∨ rest = [] ∧ after.rest = some slots ∨ ∃ slot later, rest =
      slot :: later ∧ after.rest = some later ∧ (table slot).state ≠ .runnable := by
  cases moved with
  | lottery mode => cases mode
  | roundRobin =>
    cases sweeping
    exact .inr (.inl ⟨rfl, rfl⟩)
  | skip idle =>
    cases sweeping
    exact .inr (.inr ⟨_, _, rfl, rfl, idle⟩)
  | endPass => exact .inl sweeping
  | _ => cases sweeping

theorem Resume.rest_next (sweeping : (SchedPoint.back self resume).rest = some rest) :
    resume.next.rest = some rest := by
  cases resume with
  | lottery => cases sweeping
  | roundRobin => exact sweeping

def LifeEvent.setsMode : LifeEvent → Bool
  | .setsched _ => true
  | _ => false

namespace Machine

variable {Cpu : Type} [DecidableEq Cpu] {machine next : Machine Cpu}

def RoundRobinStep (machine : Machine Cpu) (label : Cpu × LifeEvent) (next : Machine Cpu) : Prop :=
  Step machine label next ∧ machine.schedulerMode = 0

theorem perform_rest (runs : machine.sched cpu = .running self resume) {thread : Thread} :
    ((machine.perform cpu self resume move thread).sched cpu).rest = (machine.sched cpu).rest := by
  cases switches : move.switches with
  | true =>
    rw [perform_sched_switches switches, runs]
    cases resume <;> rfl
  | false => rw [perform_sched_stays switches]

/-- What one step of a CPU does to its own sweep. A slot leaves it when it is
dispatched or found not RUNNABLE. -/
theorem RoundRobinStep.rest_cases (taken : RoundRobinStep machine (cpu, event) next)
    (sweeping : (machine.sched cpu).rest = some rest) :
    (∀ slot lottery, event ≠ .dispatch slot lottery) ∧
      ((next.sched cpu).rest = some rest ∨ rest = [] ∧ (next.sched cpu).rest = some slots ∨
        ∃ slot later, rest = slot :: later ∧ (next.sched cpu).rest = some later ∧
        (machine.procs slot).state ≠ .runnable) ∨ ∃ slot later, event = .dispatch slot false ∧
      rest = slot :: later ∧ (next.sched cpu).rest = some later := by
  obtain ⟨taken, mode⟩ := taken
  cases taken with
  | schedule moved =>
    rw [mode] at moved
    have quiet : ∀ slot lottery, event ≠ .dispatch slot lottery := by
      rcases moved.event_eq with rfl | rfl <;> nofun
    refine .inl ⟨quiet, ?_⟩
    simp only [advance, update_self]
    exact moved.rest_cases sweeping
  | dispatch chosen =>
    right
    simp only [dispatch, update_self]
    generalize machine.sched cpu = point at chosen sweeping
    cases chosen with
    | lottery => cases sweeping
    | roundRobin =>
      cases sweeping
      exact ⟨_, _, rfl, rfl, rfl⟩
  | finish parked =>
    refine .inl ⟨nofun, .inl ?_⟩
    simp only [finish, update_self]
    rw [parked] at sweeping
    exact Resume.rest_next sweeping
  | thread runs moved =>
    refine .inl ⟨fun _ _ => moved.not_dispatch, .inl ?_⟩
    rw [perform_rest runs, sweeping]
  | wakeup => exact .inl ⟨nofun, .inl sweeping⟩

def Sweeping (machine : Machine Cpu) (cpu : Cpu) : Prop :=
  ∃ rest, (machine.sched cpu).rest = some rest ∧ rest <:+ slots

theorem RoundRobinStep.sweeping (sweeps : machine.Sweeping cpu)
    (taken : RoundRobinStep machine label next) : next.Sweeping cpu := by
  obtain ⟨acting, event⟩ := label
  obtain ⟨rest, sweeping, suffix⟩ := sweeps
  by_cases own : acting = cpu
  · subst own
    rcases taken.rest_cases sweeping with
      ⟨_, same | ⟨_, whole⟩ | ⟨slot, later, rfl, left, _⟩⟩ | ⟨slot, later, _, rfl, left⟩
    · exact ⟨rest, same, suffix⟩
    · exact ⟨slots, whole, List.suffix_refl _⟩
    · exact ⟨later, left, (List.suffix_cons slot later).trans suffix⟩
    · exact ⟨later, left, (List.suffix_cons slot later).trans suffix⟩
  · refine ⟨rest, ?_, suffix⟩
    rw [taken.1.sched_other (Ne.symm own), sweeping]

theorem run_sweeping (cpu : Cpu)
    (run : Transition.Run (@RoundRobinStep Cpu _) boot labels machine) :
    machine.Coherent ∧ machine.Sweeping cpu :=
  run.invariant (fun machine => machine.Coherent ∧ machine.Sweeping cpu)
    ⟨Coherent.boot_coherent, [], rfl, List.nil_suffix⟩ fun ⟨coherent, sweeps⟩ taken =>
      ⟨taken.1.coherent coherent, taken.sweeping sweeps⟩

/-- The waiting slot is RUNNABLE, and the CPU comes to it before it comes to
the other one. -/
structure Awaits (cpu : Cpu) (waiting chosen : Slot) (machine : Machine Cpu) : Prop where
  coherent : machine.Coherent
  ready : (machine.procs waiting).state = .runnable
  ahead : ∃ rest, (machine.sched cpu).rest = some rest ∧ Ahead waiting chosen (rest ++ slots)

theorem Awaits.step (awaits : Awaits cpu waiting chosen machine)
    (taken : RoundRobinStep machine label next)
    (undispatched : ∀ lottery, label.2 ≠ .dispatch waiting lottery) :
    Awaits cpu waiting chosen next := by
  obtain ⟨acting, event⟩ := label
  obtain ⟨coherent, ready, rest, sweeping, ahead⟩ := awaits
  obtain ⟨legal, procs⟩ := taken.1.legal coherent
  refine ⟨taken.1.coherent coherent, ?_, ?_⟩
  · rw [procs]
    exact LifeEvent.runnable_apply legal ready undispatched
  · by_cases own : acting = cpu
    · subst own
      rcases taken.rest_cases sweeping with
        ⟨_, same | ⟨rfl, whole⟩ | ⟨slot, later, rfl, left, idle⟩⟩ | ⟨slot, later, rfl, rfl, left⟩
      · exact ⟨rest, same, ahead⟩
      · exact ⟨slots, whole, Ahead.append ahead slots⟩
      · refine ⟨later, left, Ahead.passed ahead ?_⟩
        rintro rfl
        exact idle ready
      · refine ⟨later, left, Ahead.passed ahead ?_⟩
        rintro rfl
        exact undispatched false rfl
    · refine ⟨rest, ?_, ahead⟩
      rw [taken.1.sched_other (Ne.symm own), sweeping]

theorem Awaits.not_dispatched (awaits : Awaits cpu waiting chosen machine)
    (differs : waiting ≠ chosen) :
    ¬RoundRobinStep machine (cpu, .dispatch chosen lottery) next := by
  intro taken
  obtain ⟨rest, sweeping, ahead⟩ := awaits.ahead
  rcases taken.rest_cases sweeping with
    ⟨quiet, _⟩ | ⟨slot, later, dispatches, rfl, _⟩
  · exact quiet chosen lottery rfl
  · cases dispatches
    exact Ahead.not_head differs ahead

theorem RoundRobinStep.awaits (coherent : machine.Coherent) (sweeps : machine.Sweeping cpu)
    (taken : RoundRobinStep machine (cpu, .dispatch self lottery) next)
    (ready : (next.procs waiting).state = .runnable) :
    waiting ≠ self ∧ Awaits cpu waiting self next := by
  obtain ⟨rest, sweeping, suffix⟩ := sweeps
  have differs : waiting ≠ self := by
    rintro rfl
    rw [(taken.1.legal coherent).2, LifeEvent.apply_target _ rfl] at ready
    cases ready
  refine ⟨differs, taken.1.coherent coherent, ready, ?_⟩
  rcases taken.rest_cases sweeping with
    ⟨quiet, _⟩ | ⟨slot, later, dispatches, rfl, left⟩
  · exact absurd rfl (quiet self lottery)
  · cases dispatches
    obtain ⟨done, split⟩ := suffix
    exact ⟨later, left, ahead_after split.symm differs⟩

/-- While scheduler_mode is 0, a process that is RUNNABLE when a CPU dispatches
some process is dispatched before this CPU dispatches the same process again. -/
theorem round_robin_no_starvation {start first second last : Machine Cpu}
    (before : Transition.Run RoundRobinStep boot past start)
    (dispatched : RoundRobinStep start (cpu, .dispatch self lottery) first)
    (between : Transition.Run RoundRobinStep first labels second)
    (again : RoundRobinStep second (cpu, .dispatch self drawn) last) :
    ∀ waiting, (first.procs waiting).state = .runnable → ∃ other byLottery,
      (other, LifeEvent.dispatch waiting byLottery) ∈ labels := by
  intro waiting ready
  by_contra never
  obtain ⟨coherent, sweeps⟩ := run_sweeping cpu before
  obtain ⟨differs, awaits⟩ := dispatched.awaits coherent sweeps ready
  have still : Awaits cpu waiting self second := by
    refine between.along (fun label => ∀ lottery, label.2 ≠ .dispatch waiting lottery)
      (Awaits cpu waiting self) awaits
      (fun undispatched awaits taken => awaits.step taken undispatched) ?_
    rintro ⟨other, event⟩ member byLottery rfl
    exact never ⟨other, byLottery, member⟩
  exact still.not_dispatched differs again

/-! initproc and its child take turns on one CPU. -/

theorem skips_run {machine : Machine Unit} (here : machine.sched () = .roundRobin remaining)
    (idle : ∀ slot ∈ remaining, (machine.procs slot).state ≠ .runnable ∧ machine.lock (.proc slot) =
      none) :
    Transition.Run Step machine (remaining.map fun _ => ((), .quiet))
      (machine.advance () (.roundRobin []) machine.seed) := by
  induction remaining generalizing machine with
  | nil =>
    rw [advance_self here]
    exact .refl
  | cons slot rest induction =>
    have passed := idle slot (.head _)
    have skipped := run_advance (.refl : Transition.Run Step machine [] _)
      () .quiet (some slot) machine.seed (.roundRobin rest)
      (here ▸ .skip passed.1) (by rintro _ ⟨⟩; exact passed.2)
    have later : Transition.Run Step (machine.advance () (.roundRobin rest) machine.seed) _ _ :=
      induction rfl fun other member => idle other (.tail _ member)
    rw [advance_advance] at later
    exact skipped.trans later

def yields (machine : Machine Unit) (slot : Slot) (remaining : List Slot) : Machine Unit :=
  (machine.perform () slot (.roundRobin remaining)
    { event := .yield slot
      acquires := some (.proc slot)
      switches := true } (Point.code.yieldedThread rfl)).finish () slot (.roundRobin remaining)

def yieldLabels (slot : Slot) : List (Unit × LifeEvent) :=
  [((), .yield slot), ((), .quiet)]

theorem yields_run {machine : Machine Unit}
    (runs : machine.sched () = .running slot (.roundRobin remaining))
    (ready : machine.thread slot = Point.code.thread) (free : machine.lock (.proc slot) = none) :
    Transition.Run Step machine (yieldLabels slot) (machine.yields slot remaining) := by
  have begun : Transition.Run Step machine [] machine := .refl
  have yielded := run_perform begun () slot (.roundRobin remaining)
    { event := .yield slot
      acquires := some (.proc slot)
      switches := true } (Point.code.yieldedThread rfl) runs
    (ready ▸ .yield rfl) nofun (by rintro lock ⟨⟩; exact free)
  exact yielded.tail (.finish rfl)

theorem perform_mode {thread : Thread} (kept : move.event.setsMode = false) :
    (machine.perform cpu self resume move thread).schedulerMode = machine.schedulerMode := by
  unfold perform
  dsimp only
  split
  · next mode sets =>
      rw [sets] at kept
      cases kept
  · rfl

theorem roundRobin_run {start : Machine Cpu} (run : Transition.Run Step start labels machine)
    (mode : start.schedulerMode = 0) (kept : ∀ label ∈ labels, label.2.setsMode = false) :
    Transition.Run RoundRobinStep start labels machine := by
  refine (run.restrict (fun label => label.2.setsMode = false)
    (fun machine => machine.schedulerMode = 0) mode ?_ kept).mono fun taken => ⟨taken.2, taken.1.2⟩
  rintro middle ⟨cpu, event⟩ after unset same taken
  cases taken with
  | thread => exact (perform_mode unset).trans same
  | _ => exact same

theorem roundRobin_dispatch {machine : Machine Unit}
    (here : machine.sched () = .roundRobin (slot :: remaining))
    (ready : (machine.procs slot).state = .runnable) (free : machine.lock (.proc slot) = none)
    (mode : machine.schedulerMode = 0) :
    RoundRobinStep machine ((), .dispatch slot false)
      (machine.dispatch () slot (.roundRobin remaining)) := by
  have chosen : Chooses machine.procs (machine.sched ()) slot
      (.roundRobin remaining) := here ▸ .roundRobin ready
  exact ⟨.dispatch chosen free, mode⟩

def forkedAndYielded : Machine Unit := started.forks.yields initproc slots.tail

def childDispatched : Machine Unit :=
  forkedAndYielded.dispatch () firstChild (.roundRobin slots.tail.tail)

def childYielded : Machine Unit :=
  (childDispatched.perform () firstChild (.roundRobin slots.tail.tail)
    { releases := [.proc firstChild] } Point.code.thread).yields firstChild slots.tail.tail

def initDispatched : Machine Unit :=
  ((childYielded.advance () .top childYielded.seed).advance ()
    (.roundRobin slots) childYielded.seed).dispatch () initproc (.roundRobin slots.tail)

def initYielded : Machine Unit :=
  (initDispatched.perform () initproc (.roundRobin slots.tail)
    { releases := [.proc initproc] } Point.code.thread).yields initproc slots.tail

theorem childYielded_run :
    Transition.Run Step childDispatched (((), .quiet) :: yieldLabels firstChild) childYielded := by
  have forkret := run_perform (.refl : Transition.Run Step childDispatched
      [] childDispatched) () firstChild
    (.roundRobin slots.tail.tail) { releases := [.proc firstChild] }
    Point.code.thread rfl .forkret nofun nofun
  exact forkret.trans (yields_run rfl rfl rfl)

theorem initDispatched_run :
    Transition.Run Step childYielded (slots.tail.tail.map (fun _ => ((), .quiet)) ++ [((), .quiet)]
        ++ [((), .quiet)] ++ [((), .dispatch initproc false)]) initDispatched := by
  have idle : ∀ slot ∈ slots.tail.tail, (childYielded.procs slot).state ≠ .runnable ∧
        childYielded.lock (.proc slot) = none := by decide +kernel
  have skipped : Transition.Run Step childYielded _
      (childYielded.advance () (.roundRobin []) childYielded.seed) :=
    skips_run rfl idle
  have ended := run_advance skipped () .quiet none childYielded.seed .top .endPass nofun
  rw [advance_advance] at ended
  have again := run_advance ended () .quiet none childYielded.seed
    (.roundRobin slots) (.roundRobin (by decide)) nofun
  exact run_dispatch again () initproc (.roundRobin slots.tail) (.roundRobin rfl) rfl

theorem initYielded_run :
    Transition.Run Step initDispatched (((), .quiet) :: yieldLabels initproc) initYielded := by
  have returned := run_perform (.refl : Transition.Run Step initDispatched
      [] initDispatched) () initproc (.roundRobin slots.tail) { releases := [.proc initproc] }
    Point.code.thread rfl (.yielded rfl) nofun nofun
  exact returned.trans (yields_run rfl rfl rfl)

theorem initproc_between_turns_of_child :
    ∃ labels other byLottery, Transition.Run RoundRobinStep childDispatched labels initYielded ∧
      (other, LifeEvent.dispatch initproc byLottery) ∈ labels := by
  have forked := forks_run rfl rfl started_lock (by decide) rfl
  have yielded := yields_run (rfl : started.forks.sched () = _) rfl (forks_lock started_lock _)
  have before := roundRobin_run ((started_run.trans forked).trans yielded) rfl (by decide)
  have dispatched : RoundRobinStep forkedAndYielded
      ((), .dispatch firstChild false) childDispatched :=
    roundRobin_dispatch rfl rfl rfl rfl
  have between := roundRobin_run
    ((childYielded_run.trans initDispatched_run).trans initYielded_run) rfl (by decide)
  have again : RoundRobinStep initYielded ((), .dispatch firstChild false)
      (initYielded.dispatch () firstChild (.roundRobin slots.tail.tail)) :=
    roundRobin_dispatch rfl rfl rfl rfl
  obtain ⟨other, byLottery, member⟩ := round_robin_no_starvation before
    dispatched between again initproc rfl
  exact ⟨_, other, byLottery, between, member⟩

end Machine

end Xv6Lottery
