import Xv6Lottery.Sleep.Machine

/-! The steps as a function, for runs of given processes. -/

namespace Xv6Lottery.Sleep

open Transition

variable {Process Cpu Name Chan Data Point : Type}

inductive Action (Process Cpu Chan : Type) where
  /-- The thread on a CPU goes on, with the number of its choice. -/
  | thread (cpu : Cpu) (choice : Nat)
  | yield (cpu : Cpu)
  | resume (cpu : Cpu)
  | dispatch (cpu : Cpu) (self : Process)
  | finish (cpu : Cpu)
  | interrupt (slot : Process) (chan : Chan)

section Execution

variable [FinEnum Process] [DecidableEq Chan] (code : Point → Instr Process Name Chan Data Point)
  (pick : Point → Nat → Option Point)

def Phase.move (self : Process) (procs : Process → Record Chan) (data : Data) (choice : Nat) :
    Phase Process Name Chan Point →
      Option (Move Process Name Chan Data × Phase Process Name Chan Point)
  | .code point =>
    match code point with
    | .choose _ =>
      (pick point choice).map fun next => ({ data := data }, .code next)
    | .acquire lk next =>
      some ({ acquires := some (.named lk), data := data }, .code next)
    | .release lk next =>
      some ({ releases := some (.named lk), data := data }, .code next)
    | .access use =>
      some ({ data := (use self data).1 }, .code (use self data).2)
    | .killed next =>
      some ({ passes := some (.proc self), data := data }, .code (next (procs self).killed))
    | .sleep chan lk next =>
      some ({ label := .sleep self chan lk
              acquires := some (.proc self)
              data := data }, .falling chan lk next)
    | .wakeup chan next =>
      some ({ label := .wakeup self chan, data := data },
        .waking chan (FinEnum.toList Process) next)
    | .kill pid next =>
      some ({ data := data }, .seeking pid (FinEnum.toList Process) next)
  | .falling chan lk next =>
    some ({ releases := some (.named lk), data := data }, .dozing chan lk next)
  | .dozing chan lk next =>
    some ({ changes := some (self, (procs self).doze chan)
            data := data
            switches := true }, .asleep chan lk next)
  | .asleep _ lk next =>
    some ({ releases := some (.proc self)
            changes := some (self, { procs self with chan := none })
            data := data }, .rising lk next)
  | .rising lk next =>
    some ({ acquires := some (.named lk), data := data }, .code next)
  | .waking chan (slot :: rest) next =>
    if slot = self then some ({ data := data }, .waking chan rest next)
    else some ({ passes := some (.proc slot)
                 changes := some (slot, (procs slot).rouse chan)
                 data := data }, .waking chan rest next)
  | .waking chan [] next =>
    some ({ label := .woken self chan, data := data }, .code next)
  | .seeking pid (slot :: rest) next =>
    if (procs slot).pid = pid then
      some ({ label := .kill self slot
              passes := some (.proc slot)
              changes := some (slot, (procs slot).kill)
              data := data }, .code (next true))
    else some ({ passes := some (.proc slot), data := data }, .seeking pid rest next)
  | .seeking _ [] next => some ({ data := data }, .code (next false))

variable {code pick} {self : Process} {procs : Process → Record Chan} {data : Data} {choice : Nat}
  {phase after : Phase Process Name Chan Point} {move : Move Process Name Chan Data}

theorem Phase.move_sound (sound : ∀ {point options next}, code point = .choose options →
      pick point choice = some next → options next)
    (moves : phase.move code pick self procs data choice = some (move, after)) :
    ThreadStep code self procs data phase move after := by
  cases phase with
  | code point =>
    simp only [Phase.move] at moves
    split at moves
    next options found =>
      obtain ⟨next, picked, same⟩ := Option.map_eq_some_iff.mp moves
      cases same
      exact .choose found (sound found picked)
    next found =>
      cases moves
      exact .acquire found
    next found =>
      cases moves
      exact .release found
    next found =>
      cases moves
      exact .access found
    next found =>
      cases moves
      exact .killed found
    next found =>
      cases moves
      exact .sleep found
    next found =>
      cases moves
      exact .wakeup found
    next found =>
      cases moves
      exact .kill found
  | falling chan lk next =>
    cases moves
    exact .fall
  | dozing chan lk next =>
    cases moves
    exact .doze
  | asleep chan lk next =>
    cases moves
    exact .rise
  | rising lk next =>
    cases moves
    exact .regain
  | waking chan rest next =>
    cases rest with
    | nil =>
      cases moves
      exact .woken
    | cons slot rest =>
      simp only [Phase.move] at moves
      split at moves
      next same =>
        subst same
        cases moves
        exact .wakeSelf
      next other =>
        cases moves
        exact .wake other
  | seeking pid rest next =>
    cases rest with
    | nil =>
      cases moves
      exact .killEnd
    | cons slot rest =>
      simp only [Phase.move] at moves
      split at moves
      next hit =>
        cases moves
        exact .killHit hit
      next miss =>
        cases moves
        exact .killMiss miss

end Execution

instance [Fintype Process] [Fintype Name] : Fintype (Lock Process Name) :=
  .ofEquiv (Process ⊕ Name)
    { toFun := Sum.elim .proc .named
      invFun := fun
        | .proc slot => .inl slot
        | .named lk => .inr lk
      left_inv := by rintro (slot | lk) <;> rfl
      right_inv := by rintro (slot | lk) <;> rfl }

namespace Machine

variable [FinEnum Process] [DecidableEq Cpu] [Fintype Name] [DecidableEq Name] [DecidableEq Chan]

variable (code : Point → Instr Process Name Chan Data Point) (pick : Point → Nat → Option Point)

def next (machine : Machine Process Cpu Name Chan Data Point) : Action Process Cpu Chan →
      Option (Label Process Name Chan × Machine Process Cpu Name Chan Data Point)
  | .thread cpu choice =>
    match machine.cpus cpu with
    | .runs self =>
      match machine.threads self with
      | ⟨before, false⟩ =>
        match before.move code pick self machine.procs machine.data choice with
        | some (move, after) =>
          if (∀ lock ∈ move.passes, machine.lock lock = none) ∧
              (∀ lock ∈ move.acquires, machine.lock lock = none) ∧ (∀ lock ∈ move.releases,
                machine.lock lock = some cpu) ∧ (move.switches = true → ∀ lock,
                machine.lock lock = some cpu → lock = .proc self) then
            some (move.label, machine.perform cpu self move after)
          else none
        | none => none
      | ⟨_, true⟩ => none
    | _ => none
  | .yield cpu =>
    match machine.cpus cpu with
    | .runs self =>
      match machine.threads self with
      | ⟨phase, false⟩ =>
        if (∀ lock, machine.lock lock ≠ some cpu) ∧ machine.lock (.proc self) = none then
          some (.quiet, (((machine.setLock (.proc self) (some cpu)).setProc self
              { machine.procs self with state := .runnable }).setCpu
              cpu (.back self)).setThread self ⟨phase, true⟩)
        else none
      | ⟨_, true⟩ => none
    | _ => none
  | .resume cpu =>
    match machine.cpus cpu with
    | .runs self =>
      match machine.threads self with
      | ⟨phase, true⟩ =>
        some (.quiet, (machine.setLock (.proc self) none).setThread self ⟨phase, false⟩)
      | ⟨_, false⟩ => none
    | _ => none
  | .dispatch cpu self =>
    if machine.cpus cpu = .idle ∧ (machine.procs self).state = .runnable ∧
        machine.lock (.proc self) = none then
      some (.quiet, ((machine.setLock (.proc self) (some cpu)).setProc
        self { machine.procs self with state := .running }).setCpu cpu (.runs self))
    else none
  | .finish cpu =>
    match machine.cpus cpu with
    | .back self =>
      some (.quiet, (machine.setLock (.proc self) none).setCpu cpu .idle)
    | _ => none
  | .interrupt slot chan =>
    if machine.lock (.proc slot) = none then
      some (.quiet, machine.setProc slot ((machine.procs slot).rouse chan))
    else none

variable {code pick} {machine after : Machine Process Cpu Name Chan Data Point}
  {label : Label Process Name Chan}

theorem next_step (sound : ∀ {point options choice next}, code point = .choose options →
      pick point choice = some next → options next)
    (moves : machine.next code pick action = some (label, after)) :
    machine.Step code label after := by
  cases action with
  | thread cpu choice =>
    simp only [next] at moves
    split at moves
    next self runs =>
      split at moves
      next before here =>
        split at moves
        next move phase found =>
          split at moves
          next allowed =>
            cases moves
            obtain ⟨passes, acquires, releases, switches⟩ := allowed
            exact .thread runs here (Phase.move_sound sound found) passes acquires releases switches
          next => cases moves
        next => cases moves
      next => cases moves
    next => cases moves
  | yield cpu =>
    simp only [next] at moves
    split at moves
    next self runs =>
      split at moves
      next phase here =>
        split at moves
        next allowed =>
          cases moves
          exact .yield runs here allowed.1 allowed.2
        next => cases moves
      next => cases moves
    next => cases moves
  | resume cpu =>
    simp only [next] at moves
    split at moves
    next self runs =>
      split at moves
      next phase here =>
        cases moves
        exact .resume runs here
      next => cases moves
    next => cases moves
  | dispatch cpu self =>
    simp only [next] at moves
    split at moves
    next allowed =>
      cases moves
      exact .dispatch allowed.1 allowed.2.1 allowed.2.2
    next => cases moves
  | finish cpu =>
    simp only [next] at moves
    split at moves
    next self back =>
      cases moves
      exact .finish back
    next => cases moves
  | interrupt slot chan =>
    simp only [next] at moves
    split at moves
    next free =>
      cases moves
      exact .interrupt free
    next => cases moves

def exec (code : Point → Instr Process Name Chan Data Point) (pick : Point → Nat → Option Point)
    (machine : Machine Process Cpu Name Chan Data Point) : List (Action Process Cpu Chan) →
      Option (List (Label Process Name Chan) × Machine Process Cpu Name Chan Data Point)
  | [] => some ([], machine)
  | action :: rest =>
    match machine.next code pick action with
    | none => none
    | some (label, middle) =>
      match middle.exec code pick rest with
      | none => none
      | some (labels, after) => some (label :: labels, after)

theorem exec_run (sound : ∀ {point options choice next}, code point = .choose options →
      pick point choice = some next → options next)
    (done : machine.exec code pick actions = some (labels, after)) :
    Run (Step code) machine labels after := by
  induction actions generalizing machine labels with
  | nil =>
    cases done
    exact .refl
  | cons action rest induction =>
    simp only [exec] at done
    split at done
    next => cases done
    next label middle moved =>
      split at done
      next => cases done
      next found =>
        cases done
        exact (Run.single (next_step sound moved)).trans (induction found)

def trace (code : Point → Instr Process Name Chan Data Point) (pick : Point → Nat → Option Point)
    (machine : Machine Process Cpu Name Chan Data Point)
    (actions : List (Action Process Cpu Chan)) : List (Label Process Name Chan) :=
  ((machine.exec code pick actions).map Prod.fst).getD []

def played (code : Point → Instr Process Name Chan Data Point) (pick : Point → Nat → Option Point)
    (machine : Machine Process Cpu Name Chan Data Point)
    (actions : List (Action Process Cpu Chan)) : Machine Process Cpu Name Chan Data Point :=
  ((machine.exec code pick actions).map Prod.snd).getD machine

section

variable (sound : ∀ {point options choice next}, code point = .choose options → pick point choice
  = some next → options next)

include sound

theorem played_run
    (plays : (machine.exec code pick actions).isSome = true) :
    Run (Step code) machine (machine.trace code pick actions) (machine.played code pick actions)
      := by
  obtain ⟨⟨labels, final⟩, done⟩ := Option.isSome_iff_exists.mp plays
  unfold trace played
  rw [done]
  exact exec_run sound done

theorem played_step
    (plays : (machine.next code pick action).map Prod.fst = some label) :
    machine.Step code label (machine.played code pick [action]) := by
  obtain ⟨⟨_, final⟩, moved, rfl⟩ := Option.map_eq_some_iff.mp plays
  have same : machine.played code pick [action] = final := by
    simp only [played, exec, moved, Option.map_some, Option.getD_some]
  rw [same]
  exact next_step sound moved

end

end Machine

end Xv6Lottery.Sleep
