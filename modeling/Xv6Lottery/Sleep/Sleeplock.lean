import Xv6Lottery.Sleep.Execution
import Xv6Lottery.Sleep.Monitor

/-! sleeplock.c: any number of sleep locks, taken and released by processes
in any order, as long as only a holder releases. -/

namespace Xv6Lottery.Sleep

open Transition Function

structure SleepLock where
  locked : Bool
  pid : Nat
  deriving DecidableEq

def initsleeplock : SleepLock := ⟨false, 0⟩

/-- Where a process is in sleeplock.c, and the locks that it holds. -/
inductive LockPoint (Lk : Type) where
  | home (held : Lk → Bool)
  -- acquiresleep()
  | acquiring (lk : Lk) (held : Lk → Bool)
  | testing (lk : Lk) (held : Lk → Bool)
  | waiting (lk : Lk) (held : Lk → Bool)
  | taking (lk : Lk) (held : Lk → Bool)
  | taken (lk : Lk) (held : Lk → Bool)
  -- releasesleep()
  | releasing (lk : Lk) (held : Lk → Bool)
  | clearing (lk : Lk) (held : Lk → Bool)
  | waking (lk : Lk) (held : Lk → Bool)
  | leaving (lk : Lk) (held : Lk → Bool)
  -- holdingsleep()
  | asking (lk : Lk) (held : Lk → Bool)
  | reading (lk : Lk) (held : Lk → Bool)
  | answering (lk : Lk) (held : Lk → Bool) (holding : Bool)
  -- kill() of any process
  | killing (pid : Nat) (held : Lk → Bool)

namespace LockPoint

variable {Lk : Type}

def held : LockPoint Lk → Lk → Bool
  | home held | acquiring _ held | testing _ held | waiting _ held
  | taking _ held | taken _ held | releasing _ held | clearing _ held
  | waking _ held | leaving _ held | asking _ held | reading _ held
  | answering _ held _ | killing _ held => held

/-- releasesleep() is called by holders only. -/
def Rightful : LockPoint Lk → Prop
  | releasing lk held | clearing lk held => held lk = true
  | _ => True

inductive Offers (held : Lk → Bool) : LockPoint Lk → Prop
  | acquiresleep : Offers held (.acquiring lk held)
  | releasesleep : held lk = true → Offers held (.releasing lk held)
  | holdingsleep : Offers held (.asking lk held)
  | kill : Offers held (.killing pid held)

end LockPoint

section Code

variable {Process Lk : Type} [DecidableEq Lk] (pid : Process → Nat)

/-- The channel of a sleep lock is its address, and it has a spinlock. -/
def sleeplocks : LockPoint Lk → Instr Process Lk Lk (Lk → SleepLock) (LockPoint Lk)
  | .home held => .choose (LockPoint.Offers held)
  | .acquiring lk held => .acquire lk (.testing lk held)
  | .testing lk held => .access fun _ data =>
    (data, if (data lk).locked then .waiting lk held else .taking lk held)
  | .waiting lk held => .sleep lk lk (.testing lk held)
  | .taking lk held => .access fun self data =>
    (update data lk ⟨true, pid self⟩, .taken lk (update held lk true))
  | .taken lk held => .release lk (.home held)
  | .releasing lk held => .acquire lk (.clearing lk held)
  | .clearing lk held => .access fun _ data =>
    (update data lk ⟨false, 0⟩, .waking lk (update held lk false))
  | .waking lk held => .wakeup lk (.leaving lk held)
  | .leaving lk held => .release lk (.home held)
  | .asking lk held => .acquire lk (.reading lk held)
  | .reading lk held => .access fun self data =>
    (data, .answering lk held ((data lk).locked && (data lk).pid = pid self))
  | .answering lk held _ => .release lk (.home held)
  | .killing pid held => .kill pid fun _ => .home held

/-- The spinlock of one sleep lock as a monitor. -/
def lockOutline (lk : Lk) : Outline Lk (Lk → SleepLock) (LockPoint Lk) where
  inside
    | .testing other _ | .waiting other _ | .taking other _
    | .taken other _ | .clearing other _ | .waking other _
    | .leaving other _ | .reading other _ | .answering other _ _ =>
      other = lk
    | _ => False
  asserts
    | .waiting _ _, data => (data lk).locked = true
    | .taking _ _, data => (data lk).locked = false
    | _, _ => True
  owes
    | .waking other _, chan => chan = other
    | _, _ => False

omit [DecidableEq Lk] in
theorem lockOutline_congr (same : changed lk = data lk) (point : LockPoint Lk)
    (asserts : (lockOutline lk).asserts point data) : (lockOutline lk).asserts point changed := by
  cases point with
  | waiting =>
    change (changed lk).locked = true
    rw [same]
    exact asserts
  | taking =>
    change (changed lk).locked = false
    rw [same]
    exact asserts
  | _ => trivial

theorem lockOutline_frame (differs : other ≠ lk) (data : Lk → SleepLock) (value : SleepLock) :
    (∀ point, (lockOutline lk).asserts point data →
        (lockOutline lk).asserts point (update data other value)) ∧ ∀ chan, chan = lk →
      (data chan).locked = true → (update data other value chan).locked = true := by
  refine ⟨fun point => lockOutline_congr ?_ point, ?_⟩
  · exact update_of_ne differs.symm ..
  · rintro chan rfl locked
    rw [update_of_ne differs.symm]
    exact locked

omit [DecidableEq Lk] in
theorem lockOutline_passes (out : ¬(lockOutline lk).inside point)
    (still : ¬(lockOutline lk).inside next) (owes : ∀ chan, ¬(lockOutline lk).owes point chan) :
    (lockOutline lk).Passes point next where
  inside := ⟨fun inside => (still inside).elim, fun inside => (out inside).elim⟩
  asserts := fun inside => (out inside).elim
  owes := fun owed => (owes _ owed).elim

theorem sleeplocks_fit (lk : Lk) (point : LockPoint Lk) :
    (lockOutline lk).Fits lk (· = lk) (fun chan data => (data chan).locked =
        true) (fun _ _ => True) point (sleeplocks pid point) := by
  cases point with
  | home held =>
    intro next offers
    cases offers <;> exact lockOutline_passes id id fun _ => id
  | acquiring other held =>
    exact ⟨fun same => ⟨id, same, fun _ => trivial⟩,
      fun differs => lockOutline_passes id differs fun _ => id⟩
  | testing other held =>
    intro self data
    refine ⟨?_, fun same _ => ⟨?_, fun chan _ owed => .inl ?_⟩,
      fun _ => ⟨fun _ => id, fun _ _ => id⟩⟩
    · dsimp only
      split <;> rfl
    · cases (show other = lk from same)
      dsimp only
      split
      next locked => exact locked
      next free => exact Bool.eq_false_iff.mpr free
    · exact owed.resolve_right id
  | waiting other held =>
    refine ⟨⟨Iff.rfl, fun _ _ => trivial⟩, Iff.rfl, fun same => same, ?_⟩
    intro same
    refine ⟨fun data locked belongs => ?_, fun _ _ => id⟩
    rw [show other = lk from same]
    exact locked
  | taking other held =>
    intro self data
    refine ⟨Iff.rfl, fun same _ => ⟨trivial, fun chan belongs _ => .inl ?_⟩,
      fun differs => lockOutline_frame differs data _⟩
    rw [show chan = other from belongs.trans same.symm]
    change (update data other ⟨true, pid self⟩ other).locked = true
    rw [update_self]
  | taken other held =>
    exact ⟨fun same => ⟨same, id, fun _ _ => id⟩,
      fun differs => lockOutline_passes differs id fun _ => id⟩
  | releasing other held =>
    exact ⟨fun same => ⟨id, same, fun _ => trivial⟩,
      fun differs => lockOutline_passes id differs fun _ => id⟩
  | clearing other held =>
    intro self data
    refine ⟨Iff.rfl, fun same _ => ⟨trivial, fun chan belongs _ => .inr ?_⟩,
      fun differs => lockOutline_frame differs data _⟩
    exact belongs.trans same.symm
  | waking other held =>
    exact ⟨Iff.rfl, fun _ _ _ => trivial, fun _ owed => .inl owed⟩
  | leaving other held =>
    exact ⟨fun same => ⟨same, id, fun _ _ => id⟩,
      fun differs => lockOutline_passes differs id fun _ => id⟩
  | asking other held =>
    exact ⟨fun same => ⟨id, same, fun _ => trivial⟩,
      fun differs => lockOutline_passes id differs fun _ => id⟩
  | reading other held =>
    intro self data
    exact ⟨Iff.rfl, fun _ _ => ⟨trivial, fun _ _ => id⟩, fun _ => ⟨fun _ => id, fun _ _ => id⟩⟩
  | answering other held holding =>
    exact ⟨fun same => ⟨same, id, fun _ _ => id⟩,
      fun differs => lockOutline_passes differs id fun _ => id⟩
  | killing pid held =>
    exact fun _ => lockOutline_passes id id fun _ => id

end Code

/-! Mutual exclusion. -/

def Phase.point {Process Name Chan Point : Type} : Phase Process Name Chan Point → Point
  | .code point => point
  | .falling _ _ next | .dozing _ _ next | .asleep _ _ next
  | .rising _ next | .waking _ _ next => next
  | .seeking _ _ next => next false

/-- kill() goes on at one point, whatever it returns. -/
def Phase.Steady {Process Name Chan Point : Type} : Phase Process Name Chan Point → Prop
  | .seeking _ _ next => ∀ answer, next answer = next false
  | _ => True

section Exclusion

variable {Process Cpu Lk : Type} [FinEnum Process] [DecidableEq Lk] {pid : Process → Nat}

/-- A thread changes what it holds together with the lock. -/
inductive LockEffect (data : Lk → SleepLock) :
    Phase Process Lk Lk (LockPoint Lk) → (Lk → SleepLock) → (Lk → Bool) → Prop
  | same : LockEffect data before data before.point.held
  | takes : LockEffect data (.code (.taking lk held))
      (update data lk ⟨true, owner⟩) (update held lk true)
  | clears : held lk = true → LockEffect data (.code (.clearing lk held))
      (update data lk ⟨false, 0⟩) (update held lk false)

theorem sleeplocks_effect {move : Move Process Lk Lk (Lk → SleepLock)}
    (taken : ThreadStep (sleeplocks pid) self procs data before move phase)
    (steady : before.Steady) (rightful : before.point.Rightful) :
    LockEffect data before move.data phase.point.held ∧ phase.Steady ∧ phase.point.Rightful := by
  cases taken with
  | @choose point options next found chosen =>
    cases point <;> cases found
    cases chosen with
    | releasesleep holds => exact ⟨.same, trivial, holds⟩
    | _ => exact ⟨.same, trivial, trivial⟩
  | @acquire point held next found =>
    cases point <;> cases found
    · exact ⟨.same, trivial, trivial⟩
    · exact ⟨.same, trivial, rightful⟩
    · exact ⟨.same, trivial, trivial⟩
  | @release point held next found =>
    cases point <;> cases found <;> exact ⟨.same, trivial, trivial⟩
  | @access point use found =>
    cases point <;> cases found
    · dsimp only
      split <;> exact ⟨.same, trivial, trivial⟩
    · exact ⟨.takes, trivial, trivial⟩
    · exact ⟨.clears rightful, trivial, trivial⟩
    · exact ⟨.same, trivial, trivial⟩
  | @killed point next found => cases point <;> cases found
  | @sleep point chan held next found =>
    cases point <;> cases found
    exact ⟨.same, trivial, trivial⟩
  | fall => exact ⟨.same, trivial, rightful⟩
  | doze => exact ⟨.same, trivial, rightful⟩
  | rise => exact ⟨.same, trivial, rightful⟩
  | regain => exact ⟨.same, trivial, rightful⟩
  | @wakeup point chan next found =>
    cases point <;> cases found
    exact ⟨.same, trivial, trivial⟩
  | wake => exact ⟨.same, trivial, rightful⟩
  | wakeSelf => exact ⟨.same, trivial, rightful⟩
  | woken => exact ⟨.same, trivial, rightful⟩
  | @kill point pid next found =>
    cases point <;> cases found
    exact ⟨.same, fun _ => rfl, trivial⟩
  | @killHit slot pid rest next _ =>
    change LockEffect data _ data (next true).held ∧ True ∧ (next true).Rightful
    rw [steady true]
    exact ⟨.same, trivial, rightful⟩
  | killMiss => exact ⟨.same, steady, rightful⟩
  | killEnd => exact ⟨.same, trivial, rightful⟩

/-- The process is past `lk->locked = 1` of acquiresleep() and has not come to
`lk->locked = 0` of releasesleep(). -/
def Machine.HoldsSleep (machine : Machine Process Cpu Lk Lk (Lk → SleepLock) (LockPoint Lk))
    (slot : Process) (lk : Lk) : Prop :=
  (machine.threads slot).phase.point.held lk = true

structure Exclusive (machine : Machine Process Cpu Lk Lk (Lk → SleepLock) (LockPoint Lk)) :
    Prop where
  monitored : ∀ lk, Monitored (lockOutline lk) lk (· = lk)
    (fun chan data => (data chan).locked = true) machine
  steady : ∀ slot, (machine.threads slot).phase.Steady
  rightful : ∀ slot, (machine.threads slot).phase.point.Rightful
  locked : ∀ {slot lk}, machine.HoldsSleep slot lk → (machine.data lk).locked = true
  unique : ∀ {slot other lk}, machine.HoldsSleep slot lk →
    machine.HoldsSleep other lk → slot = other

omit [FinEnum Process] in
theorem Exclusive.effect (exclusive : Exclusive machine)
    (here : machine.threads self = ⟨before, false⟩)
    (knows : ∀ lk, (lockOutline lk).Asserts lk (· = lk) machine.data (machine.threads self).phase)
    {held : Lk → Bool} (effect : LockEffect machine.data before data held) :
    (∀ {lk}, held lk = true ∨ (∃ slot, slot ≠ self ∧ machine.HoldsSleep slot lk) →
        (data lk).locked = true) ∧ ∀ {lk slot}, held lk = true → slot ≠ self →
      ¬machine.HoldsSleep slot lk := by
  have own : ∀ {lk}, before.point.held lk = true → machine.HoldsSleep self lk := by
    intro lk
    unfold Machine.HoldsSleep
    rw [here]
    exact id
  rw [here] at knows
  cases effect with
  | same =>
    refine ⟨fun holds => ?_, fun mine differs theirs => ?_⟩
    · rcases holds with mine | ⟨slot, _, theirs⟩
      · exact exclusive.locked (own mine)
      · exact exclusive.locked theirs
    · exact differs (exclusive.unique theirs (own mine))
  | @takes lk holds owner =>
    have free : (machine.data lk).locked = false := knows lk rfl
    refine ⟨fun {other} holds => ?_, fun {other slot} mine differs theirs => ?_⟩
    · by_cases same : other = lk
      · rw [same, update_self]
      · rw [update_of_ne same] at holds ⊢
        rcases holds with mine | ⟨slot, _, theirs⟩
        · exact exclusive.locked (own mine)
        · exact exclusive.locked theirs
    · by_cases same : other = lk
      · rw [same] at theirs
        cases free.symm.trans (exclusive.locked theirs)
      · rw [update_of_ne same] at mine
        exact differs (exclusive.unique theirs (own mine))
  | @clears holds lk rightful =>
    refine ⟨fun {other} holds => ?_, fun {other slot} mine differs theirs => ?_⟩
    · by_cases same : other = lk
      · rw [same] at holds
        rcases holds with mine | ⟨slot, differs, theirs⟩
        · rw [update_self] at mine
          cases mine
        · exact (differs (exclusive.unique theirs (own rightful))).elim
      · rw [update_of_ne same] at holds ⊢
        rcases holds with mine | ⟨slot, _, theirs⟩
        · exact exclusive.locked (own mine)
        · exact exclusive.locked theirs
    · by_cases same : other = lk
      · rw [same, update_self] at mine
        cases mine
      · rw [update_of_ne same] at mine
        exact differs (exclusive.unique theirs (own mine))

variable [DecidableEq Cpu]
  {machine after : Machine Process Cpu Lk Lk (Lk → SleepLock) (LockPoint Lk)}
  {label : Label Process Lk Lk}

theorem Exclusive.step (exclusive : Exclusive machine)
    (taken : machine.Step (sleeplocks pid) label after) : Exclusive after := by
  have monitored := fun lk => (exclusive.monitored lk).step
    (sleeplocks_fit pid lk) (fun _ _ _ _ _ => trivial) taken
  rcases taken.split with
    ⟨self, cpu, before, move, phase, takes⟩ | ⟨data, spared⟩
  · obtain ⟨runs, here, moved, _, _, _, rfl, rfl⟩ := takes
    have steady := exclusive.steady self
    have rightful := exclusive.rightful self
    have knows := fun lk => (exclusive.monitored lk).asserts self
    rw [here] at steady rightful
    have ⟨effect, nextSteady, nextRightful⟩ :=
      sleeplocks_effect moved steady rightful
    have mine : ∀ {lk}, (machine.perform cpu self move phase).HoldsSleep
        self lk → phase.point.held lk = true := by
      intro lk
      unfold Machine.HoldsSleep
      rw [Machine.perform_threads_self]
      exact id
    have theirs : ∀ {slot lk}, slot ≠ self →
        (machine.perform cpu self move phase).HoldsSleep slot lk → machine.HoldsSleep slot lk := by
      intro slot lk differs
      unfold Machine.HoldsSleep
      rw [Machine.perform_threads_other differs]
      exact id
    have ⟨locked, alone⟩ := exclusive.effect here knows effect
    refine {
      monitored := monitored
      steady := fun slot => ?_
      rightful := fun slot => ?_
      locked := fun {slot lk} held => ?_
      unique := fun {slot other lk} one two => ?_ }
    · by_cases same : slot = self
      · rw [same, Machine.perform_threads_self]
        exact nextSteady
      · rw [Machine.perform_threads_other same]
        exact exclusive.steady slot
    · by_cases same : slot = self
      · rw [same, Machine.perform_threads_self]
        exact nextRightful
      · rw [Machine.perform_threads_other same]
        exact exclusive.rightful slot
    · by_cases same : slot = self
      · rw [same] at held
        exact locked (.inl (mine held))
      · exact locked (.inr ⟨slot, same, theirs same held⟩)
    · by_cases first : slot = self
      · by_cases second : other = self
        · rw [first, second]
        · rw [first] at one
          exact (alone (mine one) second (theirs second two)).elim
      · by_cases second : other = self
        · rw [second] at two
          exact (alone (mine two) first (theirs first one)).elim
        · exact exclusive.unique (theirs first one) (theirs second two)
  · have holds : ∀ {slot lk}, after.HoldsSleep slot lk → machine.HoldsSleep slot lk := by
      intro slot lk
      unfold Machine.HoldsSleep
      rw [(spared slot).phase]
      exact id
    exact {
      monitored := monitored
      steady := fun slot => by
        rw [(spared slot).phase]
        exact exclusive.steady slot
      rightful := fun slot => by
        rw [(spared slot).phase]
        exact exclusive.rightful slot
      locked := fun held => by
        rw [data]
        exact exclusive.locked (holds held)
      unique := fun one two => exclusive.unique (holds one) (holds two) }

omit [FinEnum Process] [DecidableEq Lk] [DecidableEq Cpu] in
theorem Exclusive.boot
    (boots : machine.Boot fun _ => .home fun _ => false) : Exclusive machine := by
  have none : ∀ {slot lk}, ¬machine.HoldsSleep slot lk := by
    intro slot lk
    unfold Machine.HoldsSleep
    rw [boots.ready slot]
    nofun
  exact {
    monitored := fun lk => .boot boots fun _ => id
    steady := fun slot => by
      rw [boots.ready slot]
      trivial
    rightful := fun slot => by
      rw [boots.ready slot]
      trivial
    locked := fun holds => (none holds).elim
    unique := fun holds => (none holds).elim }

theorem Exclusive.run (boots : machine.Boot fun _ => .home fun _ => false)
    (run : Run (Machine.Step (sleeplocks pid)) machine labels after) : Exclusive after :=
  Run.invariant Exclusive (.boot boots) (fun exclusive => exclusive.step) run

end Exclusion

/-- sleep() misses no wakeup() that comes after it. So a sleep lock has one
holder at most, and no one waits for one that is free. -/
theorem no_wakeup_is_lost :
    (∀ {Process Cpu Name Chan Data Point : Type} [FinEnum Process] [DecidableEq Cpu]
        [DecidableEq Name] [DecidableEq Chan] {code : Point →
        Instr Process Name Chan Data Point} {start : Process →
        Point} {boot called final : Machine Process Cpu Name Chan Data Point}
        {labels : List (Label Process Name Chan)} {slot waker : Process} {chan : Chan} {lk : Name},
        boot.Boot start → Run (Machine.Step code) boot labels called → slot ≠ waker →
        WokenSince code slot waker chan lk called final → ¬(final.procs slot).SleepsOn chan) ∧
      ∀ {Process Cpu Lk : Type} [FinEnum Process] [DecidableEq Cpu] [DecidableEq Lk]
      {pid : Process → Nat} {boot final : Machine Process Cpu Lk Lk (Lk → SleepLock) (LockPoint Lk)}
      {labels : List (Label Process Lk Lk)}, (boot.Boot fun _ => .home fun _ => false) →
      (∀ lk, boot.data lk = initsleeplock) → Run (Machine.Step (sleeplocks pid)) boot labels final →
      (∀ {slot other lk}, final.HoldsSleep slot lk → final.HoldsSleep other lk → slot = other) ∧
      ∀ {slot lk}, final.lock (.named lk) = none → (final.data lk).locked = false →
      ¬(final.procs slot).SleepsOn lk := by
  refine ⟨fun boots run differs woken => ?_, fun boots _ run => ?_⟩
  · have coherent : Coherent _ := Run.invariant Coherent (.boot boots)
      (fun coherent => coherent.step) run
    exact woken.not_sleeping differs coherent
  · have exclusive := Exclusive.run boots run
    refine ⟨exclusive.unique, fun free unlocked sleeps => ?_⟩
    have locked := (exclusive.monitored _).cond_of_free free rfl sleeps
    cases unlocked.symm.trans locked

/-! Two processes and one sleep lock: the second one waits for it, and the
first one releases it. -/

namespace Contended

def pick : LockPoint Unit → Nat → Option (LockPoint Unit)
  | .home held, 0 => some (.acquiring () held)
  | .home held, 1 =>
    if held () then some (.releasing () held) else none
  | _, _ => none

abbrev code : LockPoint Unit → Instr (Fin 2) Unit Unit (Unit → SleepLock) (LockPoint Unit) :=
  sleeplocks fun slot => slot + 1

theorem pick_sound {options : LockPoint Unit → Prop} (found : code point = .choose options)
    (picked : pick point choice = some next) : options next := by
  cases point <;> cases found
  unfold pick at picked
  split at picked
  next same =>
    cases same
    cases picked
    exact .acquiresleep
  next same =>
    cases same
    split at picked
    next holds =>
      cases picked
      exact .releasesleep holds
    next => cases picked
  next => cases picked

def boot : Machine (Fin 2) (Fin 2) Unit Unit (Unit → SleepLock) (LockPoint Unit) where
  procs slot := ⟨.runnable, none, false, slot + 1⟩
  lock _ := none
  cpus _ := .idle
  threads _ := ⟨.code (.home fun _ => false), true⟩
  data _ := initsleeplock

def toCall : List (Action (Fin 2) (Fin 2) Unit) :=
  [.dispatch 0 0, .resume 0, .dispatch 1 1, .resume 1] ++
    List.replicate 5 (.thread 0 0) ++ List.replicate 3 (.thread 1 0)

def toIssue : List (Action (Fin 2) (Fin 2) Unit) :=
  [.thread 1 0, .thread 1 0, .finish 1, .thread 0 1, .thread 0 0, .thread 0 0]

def called := boot.played code pick toCall

def slept := called.played code pick [.thread 1 0]

def issued := slept.played code pick toIssue

def wakes := issued.played code pick [.thread 0 0]

def done := wakes.played code pick [.thread 0 0, .thread 0 0]

def woke := done.played code pick [.thread 0 0]

def woken : WokenSince code 1 0 () () called woke where
  slept := slept
  issued := issued
  wakes := wakes
  done := done
  woke := woke
  toWakeup := slept.trace code pick toIssue
  toWoken := wakes.trace code pick [.thread 0 0, .thread 0 0]
  later := []
  sleeper_holds := ⟨1, by decide +kernel, by decide +kernel⟩
  sleeps := Machine.played_step pick_sound (by decide +kernel)
  first := Machine.played_run pick_sound (by decide +kernel)
  waker_holds := ⟨0, by decide +kernel, by decide +kernel⟩
  begins := Machine.played_step pick_sound (by decide +kernel)
  second := Machine.played_run pick_sound (by decide +kernel)
  inside := by decide +kernel
  ends := Machine.played_step pick_sound (by decide +kernel)
  third := .refl
  once := by decide +kernel

theorem boots : boot.Boot fun _ => .home fun _ => false :=
  ⟨fun _ => rfl, fun _ => rfl, fun _ => rfl, fun _ => rfl⟩

end Contended

open Contended in
theorem no_wakeup_is_lost_contended :
    ¬(woke.procs 1).SleepsOn () ∧ ∀ slot other, called.HoldsSleep slot () →
      called.HoldsSleep other () → slot = other := by
  have run : Run (Machine.Step code) boot (boot.trace code pick toCall)
      called := Machine.played_run pick_sound (by decide +kernel)
  refine ⟨no_wakeup_is_lost.1 boots run (by decide) woken, ?_⟩
  exact fun _ _ => (no_wakeup_is_lost.2 boots (fun _ => rfl) run).1

end Xv6Lottery.Sleep
