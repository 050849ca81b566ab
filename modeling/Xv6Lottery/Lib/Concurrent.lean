import Mathlib.Logic.Function.Basic
import Xv6Lottery.Lib.Transition

/-! Programs that run at the same time on one state. A program is a tree of
operations, each of which is done at once. Each agent has a ghost value, its
knowledge of the state, that the operations of the others leave as it is. -/

namespace Concurrent

open Function

/-- What an operation does in a state: it has to wait, it stops the system,
or it returns. -/
inductive Effect (state failure result : Type) where
  | wait
  | stop (reason : failure)
  | done (value : result) (next : state)

inductive Prog (Op : Type → Type 1) (value : Type) : Type 1 where
  | pure (outcome : value)
  | op {result : Type} (operation : Op result) (next : result → Prog Op value)

namespace Prog

variable {Op : Type → Type 1} {value result : Type}

def bind : Prog Op value → (value → Prog Op result) → Prog Op result
  | .pure outcome, after => after outcome
  | .op operation next, after =>
    .op operation fun answer => (next answer).bind after

instance : Monad (Prog Op) where
  pure := .pure
  bind := .bind

def perform (operation : Op value) : Prog Op value :=
  .op operation .pure

/-- Every operation of the program is of a kind. -/
def All (holds : ∀ result, Op result → Prop) : Prog Op value → Prop
  | .pure _ => True
  | .op operation next => holds _ operation ∧ ∀ answer, (next answer).All holds

variable {holds : ∀ result, Op result → Prop}

theorem All.pure (outcome : value) : (Pure.pure outcome : Prog Op value).All holds := trivial

theorem All.perform (kind : holds _ operation) :
    (perform operation).All holds := ⟨kind, fun _ => trivial⟩

theorem All.bind {after : value → Prog Op result} (first : prog.All holds)
    (second : ∀ outcome, (after outcome).All holds) : (prog >>= after).All holds := by
  induction prog with
  | pure outcome => exact second outcome
  | op operation next induction =>
    exact ⟨first.1, fun answer => induction answer (first.2 answer)⟩

end Prog

open Prog

section Safe

variable {Op : Type → Type 1} {state failure agent ghost : Type}

variable (sem : ∀ result, agent → Op result → state → Effect state failure result)
  (inv : state → (agent → ghost) → Prop) (assumed : state → Prop)
  (allowed : failure → Prop) [DecidableEq agent]

/-- From a ghost value on, every operation of the program is permitted, keeps
the invariant in the states that are assumed and stops only as allowed, and the
program ends with the postcondition. -/
def Safe (permit : ∀ result, Op result → Prop) (self : agent)
    {value : Type} : Prog Op value → (value → ghost → Prop) → ghost → Prop
  | .pure outcome, post, known => post outcome known
  | .op operation next, post, known =>
    permit _ operation ∧ ∀ start knowledge, inv start knowledge →
      assumed start → knowledge self = known → match sem _ self operation start with
      | .wait => True
      | .stop reason => allowed reason
      | .done answer finish => ∃ learnt, inv finish (update knowledge self learnt) ∧
            Safe permit self (next answer) post learnt

variable {sem inv assumed allowed} {permit : ∀ result, Op result → Prop}
  {self : agent} {value result : Type} {known : ghost} {post : value → ghost → Prop}

theorem Safe.bind {middle : result → ghost → Prop}
    (safe : Safe sem inv assumed allowed permit self prog middle known)
    (continues : ∀ answer learnt, middle answer learnt →
      Safe sem inv assumed allowed permit self (after answer) post learnt) :
    Safe sem inv assumed allowed permit self (prog >>= after) post known := by
  induction prog generalizing known with
  | pure outcome => exact continues outcome known safe
  | op operation next induction =>
    refine ⟨safe.1, fun start knowledge holds fine mine => ?_⟩
    have effect := safe.2 start knowledge holds fine mine
    split at effect
    · trivial
    · exact effect
    · obtain ⟨learnt, kept, rest⟩ := effect
      exact ⟨learnt, kept, induction _ rest⟩

theorem Safe.perform (permitted : permit _ operation)
    (effect : ∀ start knowledge, inv start knowledge → assumed start → knowledge self = known →
      match sem _ self operation start with
      | .wait => True
      | .stop reason => allowed reason
      | .done answer finish => ∃ learnt, inv finish (update knowledge self learnt) ∧
            post answer learnt) :
    Safe sem inv assumed allowed permit self (Prog.perform operation) post known :=
  ⟨permitted, effect⟩

end Safe

/-! A system: agents that call programs. -/

structure System (Op : Type → Type 1) (state failure agent call : Type) where
  sem : ∀ result, agent → Op result → state → Effect state failure result
  body : call → Prog Op Int

structure Machine (Op : Type → Type 1) (state failure agent call : Type) where
  state : state
  running : agent → Option (call × Prog Op Int)
  stopped : Option failure

inductive Event (agent call : Type) where
  | call (self : agent) (request : call)
  | act (self : agent)
  | ret (self : agent) (result : Int)

variable {Op : Type → Type 1} {state failure agent call ghost : Type} [DecidableEq agent]

inductive Step (system : System Op state failure agent call) :
    Machine Op state failure agent call → Event agent call →
      Machine Op state failure agent call → Prop
  | call : machine.stopped = none → machine.running self = none →
      Step system machine (.call self request)
        { machine with
            running := update machine.running self (some (request, system.body request)) }
  | act : machine.stopped = none → machine.running self = some (request, .op operation next) →
      system.sem _ self operation machine.state = .done answer finish →
      Step system machine (.act self)
        { machine with
            state := finish
            running := update machine.running self (some (request, next answer)) }
  | stop : machine.stopped = none → machine.running self = some (request, .op operation next) →
      system.sem _ self operation machine.state = .stop reason → Step system machine (.act self)
        { machine with stopped := some reason }
  | ret : machine.stopped = none → machine.running self = some (request, .pure outcome) →
      Step system machine (.ret self outcome)
        { machine with
            running := update machine.running self none }

def Machine.start (first : state) : Machine Op state failure agent call where
  state := first
  running := fun _ => none
  stopped := none

/-! The steps as a function. -/

section Execution

variable (system : System Op state failure agent call)

def Machine.next (machine : Machine Op state failure agent call) :
    Event agent call → Option (Machine Op state failure agent call)
  | .call self request =>
    match machine.stopped, machine.running self with
    | none, none => some { machine with
        running := update machine.running self (some (request, system.body request)) }
    | _, _ => none
  | .act self =>
    match machine.stopped, machine.running self with
    | none, some (request, .op operation next) =>
      match system.sem _ self operation machine.state with
      | .wait => none
      | .stop reason => some { machine with stopped := some reason }
      | .done answer finish => some { machine with
          state := finish
          running := update machine.running self (some (request, next answer)) }
    | _, _ => none
  | .ret self result =>
    match machine.stopped, machine.running self with
    | none, some (_, .pure outcome) =>
      if outcome = result then
        some { machine with
          running := update machine.running self none }
      else
        none
    | _, _ => none

/-- The events one after another, as long as a condition holds. -/
def Machine.exec (guard : Machine Op state failure agent call → Event agent call → Bool)
    (machine : Machine Op state failure agent call) :
    List (Event agent call) → Option (Machine Op state failure agent call)
  | [] => some machine
  | event :: rest =>
    if guard machine event then
      (machine.next system event).bind (exec guard · rest)
    else
      none

variable {system} {machine finish : Machine Op state failure agent call}

theorem Machine.next_step (next : machine.next system event = some finish) :
    Step system machine event finish := by
  cases event with
  | call self request =>
    simp only [Machine.next] at next
    split at next
    next going resting =>
      cases next
      exact .call going resting
    next => cases next
  | act self =>
    simp only [Machine.next] at next
    split at next
    next request result operation rest going running =>
      split at next
      next => cases next
      next reason stops =>
        cases next
        exact .stop going running stops
      next answer final done =>
        cases next
        exact .act going running done
    next => cases next
  | ret self result =>
    simp only [Machine.next] at next
    split at next
    next request outcome going running =>
      split at next
      next same =>
        cases next
        subst same
        exact .ret going running
      next => cases next
    next => cases next

theorem Machine.exec_run {guard : Machine Op state failure agent call → Event agent call → Bool}
    (done : machine.exec system guard events = some finish) :
    Transition.Run (fun machine event next => guard machine event = true ∧
        Step system machine event next) machine events finish := by
  induction events generalizing machine with
  | nil =>
    cases done
    exact .refl
  | cons event rest induction =>
    simp only [Machine.exec] at done
    split at done
    next passed =>
      simp only [Option.bind_eq_some_iff] at done
      obtain ⟨middle, next, done⟩ := done
      exact (Transition.Run.single ⟨passed, next_step next⟩).trans (induction done)
    next => cases done

end Execution

/-- What an agent knows between its calls and in them. -/
def Assured (system : System Op state failure agent call)
    (inv : state → (agent → ghost) → Prop) (assumed : state → Prop) (allowed : failure → Prop)
    (permit : call → ∀ result, Op result → Prop) (idle : agent → ghost → Prop) (self : agent) :
    Option (call × Prog Op Int) → ghost → Prop
  | none, known => idle self known
  | some (request, prog), known =>
    Safe system.sem inv assumed allowed (permit request) self prog (fun _ => idle self) known

/-- The invariant of a machine whose calls are all safe. -/
structure Kept (system : System Op state failure agent call)
    (inv : state → (agent → ghost) → Prop) (assumed : state → Prop) (allowed : failure → Prop)
    (permit : call → ∀ result, Op result → Prop) (idle : agent → ghost → Prop)
    (machine : Machine Op state failure agent call) (knowledge : agent → ghost) : Prop where
  holds : inv machine.state knowledge
  assured : ∀ self, Assured system inv assumed allowed permit idle self
    (machine.running self) (knowledge self)
  stopped : ∀ reason, machine.stopped = some reason → allowed reason

section Rule

variable {system : System Op state failure agent call}
  {inv : state → (agent → ghost) → Prop} {assumed : state → Prop} {allowed : failure → Prop}
  {permit : call → ∀ result, Op result → Prop} {idle : agent → ghost → Prop}

theorem Kept.go_on
    (kept : Kept system inv assumed allowed permit idle machine knowledge)
    (going : machine.stopped = none)
     (holds : inv finish (update knowledge self learnt))
    (mine : Assured system inv assumed allowed permit idle self progress learnt) :
    Kept system inv assumed allowed permit idle
      { machine with
          state := finish
          running := update machine.running self progress }
      (update knowledge self learnt) := by
  refine ⟨holds, fun other => ?_, fun reason same => ?_⟩
  · by_cases same : other = self
    · subst same
      simp only [update_self]
      exact mine
    · simp only [update_of_ne same]
      exact kept.assured other
  · rw [going] at same
    cases same

theorem Step.kept (taken : Step system machine event next) (fine : assumed machine.state)
    (safe : ∀ self request known, idle self known →
      Safe system.sem inv assumed allowed (permit request) self (system.body request)
      (fun _ => idle self) known)
    (kept : Kept system inv assumed allowed permit idle machine knowledge) :
    ∃ knowledge, Kept system inv assumed allowed permit idle next knowledge := by
  cases taken with
  | @call _ self request going resting =>
    have known := kept.assured self
    rw [resting] at known
    have still := update_eq_self self knowledge
    exact ⟨_, kept.go_on going (still.symm ▸ kept.holds) (safe self request (knowledge self) known)⟩
  | @act _ self _ _ _ _ _ _ going running done =>
    have known := kept.assured self
    rw [running] at known
    have effect := known.2 machine.state knowledge kept.holds fine rfl
    simp only [done] at effect
    obtain ⟨learnt, holds, rest⟩ := effect
    exact ⟨_, kept.go_on going holds rest⟩
  | @stop _ self _ _ _ _ _ going running stops =>
    have known := kept.assured self
    rw [running] at known
    have effect := known.2 machine.state knowledge kept.holds fine rfl
    simp only [stops] at effect
    refine ⟨knowledge, kept.holds, kept.assured, fun other same => ?_⟩
    cases same
    exact effect
  | @ret _ _ self _ going running =>
    have known := kept.assured self
    rw [running] at known
    have still := update_eq_self self knowledge
    exact ⟨_, kept.go_on going (still.symm ▸ kept.holds) known⟩

open Transition

/-- Safe calls keep the invariant in every run through states that are
assumed. -/
theorem run_kept (holds : inv first knowledge) (resting : ∀ self, idle self (knowledge self))
    (safe : ∀ self request known, idle self known →
      Safe system.sem inv assumed allowed (permit request) self (system.body request)
      (fun _ => idle self) known) (run : Run (fun machine event next => assumed machine.state ∧
      Step system machine event next) (.start first) events machine) :
    ∃ knowledge, Kept system inv assumed allowed permit idle machine knowledge := by
  have initial : Kept system inv assumed allowed permit idle (.start first)
      knowledge := ⟨holds, resting, fun _ => nofun⟩
  refine run.invariant (fun machine => ∃ knowledge,
    Kept system inv assumed allowed permit idle machine knowledge) ⟨knowledge, initial⟩ ?_
  rintro middle event next ⟨knowledge, kept⟩ ⟨fine, taken⟩
  exact taken.kept fine safe kept

end Rule

end Concurrent
