import Xv6Lottery.Log.Commit

/-! `begin_op`, `log_write` and `end_op` by any number of processes.  Each
step is one critical section of `log.lock`; `commit` runs without the lock and
is one step here, its disk writes being those of `Log.commit`. -/

namespace Xv6Lottery

open Transition

inductive OpPhase where
  | outside
  /-- In `begin_op`, asleep on `&log`. -/
  | sleeping
  /-- In `begin_op`, awake and about to test the log again. -/
  | woken
  /-- Between `begin_op` and `end_op`, with the distinct blocks logged. -/
  | inside (blocks : LogHeader)
  /-- In `end_op`, before and after `commit` has emptied the log. -/
  | committing
  | committed
  deriving DecidableEq

/-- The distinct blocks the current operation has logged. -/
def OpPhase.blocks : OpPhase → LogHeader
  | .inside blocks => blocks
  | _ => []

inductive LogPanic where
  | tooBig
  | outsideTransaction
  | logCommitting
  deriving DecidableEq

structure GroupLog where
  header : LogHeader
  outstanding : Nat
  committing : Bool
  phase : Nat → OpPhase
  panic : Option LogPanic

inductive GroupEvent where
  | beginOp (process : Nat)
  | logWrite (process block : Nat)
  | endOp (process : Nat)
  | commit (process : Nat)
  | finish (process : Nat)
  | kill (process : Nat)
  deriving DecidableEq

namespace GroupLog

def initial : GroupLog where
  header := []
  outstanding := 0
  committing := false
  phase := fun _ => .outside
  panic := none

def setPhase (state : GroupLog) (process : Nat) (phase : OpPhase) :
    GroupLog :=
  { state with phase := Function.update state.phase process phase }

def wakeup (state : GroupLog) : GroupLog :=
  { state with phase := fun process =>
      if state.phase process = .sleeping then .woken
      else state.phase process }

/-- One pass through the loop of `begin_op`. -/
def beginOp (state : GroupLog) (process : Nat) : GroupLog :=
  if state.committing then
    state.setPhase process .sleeping
  else if logSize < state.header.length + (state.outstanding + 1) * maxOpBlocks then
    -- this op might exhaust log space; wait for commit
    state.setPhase process .sleeping
  else
    { state with outstanding := state.outstanding + 1 }.setPhase process (.inside [])

def logWrite (log : Log) (state : GroupLog) (process : Nat)
    (blocks : LogHeader) (block : Nat) : GroupLog :=
  if log.TooBig state.header then
    { state with panic := some .tooBig }
  else if state.outstanding < 1 then
    { state with panic := some .outsideTransaction }
  else
    { state with header := Log.absorb state.header block }.setPhase process
      (.inside (Log.absorb blocks block))

/-- The first critical section of `end_op`. -/
def endOp (state : GroupLog) (process : Nat) : GroupLog :=
  let left := { state with outstanding := state.outstanding - 1 }
  if state.committing then
    { left with panic := some .logCommitting }
  else if left.outstanding = 0 then
    { left with committing := true }.setPhase process .committing
  else
    left.wakeup.setPhase process .outside

/-- The second critical section of `end_op`, after `commit`. -/
def finish (state : GroupLog) (process : Nat) : GroupLog :=
  { state with committing := false }.wakeup.setPhase process .outside

/-- A panic stops the system; other events need the process to be there. -/
def step (log : Log) (state : GroupLog) (event : GroupEvent) : Option GroupLog :=
  if state.panic ≠ none then
    none
  else
    match event with
    | .beginOp process =>
      if state.phase process = .outside ∨ state.phase process = .woken then
        some (state.beginOp process)
      else
        none
    | .logWrite process block =>
      match state.phase process with
      | .inside blocks => some (state.logWrite log process blocks block)
      | _ => none
    | .endOp process =>
      match state.phase process with
      | .inside _ => some (state.endOp process)
      | _ => none
    | .commit process =>
      if state.phase process = .committing then
        some ({ state with header := [] }.setPhase process .committed)
      else
        none
    | .finish process =>
      if state.phase process = .committed then
        some (state.finish process)
      else
        none
    | .kill process =>
      if state.phase process = .sleeping then
        some (state.setPhase process .woken)
      else
        none

/-- No operation logs more than `MAXOPBLOCKS` distinct blocks. -/
def WithinBudget (state : GroupLog) : GroupEvent → Prop
  | .logWrite process block =>
    (Log.absorb (state.phase process).blocks block).length ≤ maxOpBlocks
  | _ => True

instance (state : GroupLog) : (event : GroupEvent) → Decidable (state.WithinBudget event)
  | .logWrite _ _ => inferInstanceAs (Decidable (_ ≤ _))
  | .beginOp _ | .endOp _ | .commit _ | .finish _ | .kill _ =>
    inferInstanceAs (Decidable True)

def Step (log : Log) (state : GroupLog) (event : GroupEvent) (state' : GroupLog) : Prop :=
  state.step log event = some state'

def BudgetedStep (log : Log) (state : GroupLog) (event : GroupEvent) (state' : GroupLog) : Prop :=
  state.WithinBudget event ∧ state.Step log event state'

end GroupLog

/-- The log that `mkfs` lays out: `sb.logstart = 2`, `sb.nlog = LOGSIZE`. -/
def Log.mkfs : Log := ⟨2, logSize⟩

end Xv6Lottery
