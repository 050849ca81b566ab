import Xv6Lottery.Log.Group

namespace Xv6Lottery.GroupLog

open Transition

/-- The distinct blocks passed to `log_write` since the last commit. -/
def observeGroup (blocks : LogHeader) : GroupEvent → LogHeader
  | .logWrite _ block => Log.absorb blocks block
  | .commit _ => []
  | _ => blocks

def groupBlocks (events : List GroupEvent) : LogHeader :=
  events.foldl observeGroup []

theorem groupBlocks_append (events : List GroupEvent) (event : GroupEvent) :
    groupBlocks (events ++ [event]) = observeGroup (groupBlocks events) event := by
  simp [groupBlocks]

/-- Every `log_write` finds at most `LOGSIZE - 2` distinct blocks logged by
its group. -/
def Spare (events : List GroupEvent) : Prop :=
  ∀ past process block rest, events = past ++ .logWrite process block :: rest →
      (groupBlocks past).length + 2 ≤ logSize

theorem spare_nil : Spare [] := by
  intro past process block rest split
  simp at split

theorem spare_append (events : List GroupEvent) (event : GroupEvent) :
    Spare (events ++ [event]) ↔ Spare events ∧ ∀ process block, event = .logWrite process block →
      (groupBlocks events).length + 2 ≤ logSize := by
  constructor
  · intro spare
    constructor
    · intro past process block rest split
      exact spare past process block (rest ++ [event]) (by simp [split])
    · rintro process block rfl
      exact spare events process block [] rfl
  · rintro ⟨spare, last⟩ past process block rest split
    -- The `log_write` is one of the earlier events or the last one.
    rcases List.eq_nil_or_concat rest with rfl | ⟨middle, final, rfl⟩
    · obtain ⟨rfl, same⟩ := List.append_inj' split rfl
      exact last process block (List.head_eq_of_cons_eq same)
    · rw [List.concat_eq_append, ← List.cons_append, ← List.append_assoc] at split
      obtain ⟨earlier, -⟩ := List.append_inj' split rfl
      exact spare past process block middle earlier

/-- The effect of one step on the header and on the panic, once for all
later proofs. -/
theorem step_header {state state' : GroupLog} (taken : state.Step log event state') :
    state.panic = none ∧ ((∃ process block, event = .logWrite process block ∧
        ((log.TooBig state.header ∧ state'.panic = some .tooBig) ∨
        (¬ log.TooBig state.header ∧ state'.panic ≠ some .tooBig ∧
        (state'.panic = none → state'.header = Log.absorb state.header block)))) ∨
        ((∀ process block, event ≠ .logWrite process block) ∧ state'.panic ≠ some .tooBig ∧
        state'.header = observeGroup state.header event)) := by
  unfold Step step at taken
  split at taken
  · cases taken
  · rename_i running
    have running : state.panic = none := not_not.mp running
    refine ⟨running, ?_⟩
    cases event with
    | beginOp process =>
      right
      simp only at taken
      split at taken
      · cases taken
        unfold beginOp
        split
        · simp [setPhase, observeGroup, running]
        · split <;> simp [setPhase, observeGroup, running]
      · cases taken
    | logWrite process block =>
      left
      refine ⟨process, block, rfl, ?_⟩
      simp only at taken
      split at taken
      · cases taken
        unfold logWrite
        split
        · rename_i full
          exact .inl ⟨full, rfl⟩
        · rename_i room
          right
          refine ⟨room, ?_⟩
          split <;> simp [setPhase, running]
      · cases taken
    | endOp process =>
      right
      simp only at taken
      split at taken
      · cases taken
        unfold endOp
        simp only
        split
        · simp [observeGroup]
        · split <;> simp [setPhase, wakeup, observeGroup, running]
      · cases taken
    | commit process =>
      right
      simp only at taken
      split at taken
      · cases taken
        simp [setPhase, observeGroup, running]
      · cases taken
    | finish process =>
      right
      simp only at taken
      split at taken
      · cases taken
        simp [finish, setPhase, wakeup, observeGroup, running]
      · cases taken
    | kill process =>
      right
      simp only at taken
      split at taken
      · cases taken
        simp [setPhase, observeGroup, running]
      · cases taken

theorem tooBig_mkfs (header : LogHeader) :
    Log.mkfs.TooBig header ↔ ¬ header.length + 2 ≤ logSize := by
  simp only [Log.TooBig, Log.mkfs]
  omega

theorem run_panic {state : GroupLog} (run : Run (Step Log.mkfs) initial events state) :
    (state.panic = none → state.header = groupBlocks events) ∧
      (state.panic ≠ some .tooBig ↔ Spare events) := by
  apply run.history fun events state =>
    (state.panic = none → state.header = groupBlocks events) ∧
      (state.panic ≠ some .tooBig ↔ Spare events)
  · exact ⟨fun _ => rfl, by simp [initial, spare_nil]⟩
  · intro past state event state' _ ⟨headerEq, panicIff⟩ taken
    obtain ⟨running, change⟩ := step_header taken
    have header := headerEq running
    have spare : Spare past := panicIff.mp (by simp [running])
    rw [spare_append, groupBlocks_append]
    rcases change with
      ⟨process, block, rfl, ⟨full, panics⟩ | ⟨room, calm, absorbed⟩⟩ | ⟨other, calm, change⟩
    · rw [tooBig_mkfs, header] at full
      simp only [panics, reduceCtorEq, false_implies, ne_eq,
        not_true_eq_false, true_and, false_iff, not_and]
      intro _ fits
      exact full (fits process block rfl)
    · rw [tooBig_mkfs, not_not, header] at room
      refine ⟨fun none => ?_, ?_⟩
      · rw [absorbed none, header]
        rfl
      · simp only [calm, ne_eq, not_false_eq_true, true_iff]
        exact ⟨spare, fun _ _ _ => room⟩
    · refine ⟨fun _ => ?_, ?_⟩
      · rw [change, header]
      · simp only [calm, ne_eq, not_false_eq_true, true_iff]
        exact ⟨spare, fun process block same => absurd same (other _ _)⟩

theorem BudgetedStep.run (run : Run (BudgetedStep log) initial events state) :
    Run (Step log) initial events state := by
  induction run with
  | refl => exact .refl
  | tail _ taken induction => exact .tail induction taken.2

def exec (log : Log) (state : GroupLog) : List GroupEvent → Option GroupLog
  | [] => some state
  | event :: rest =>
    if state.WithinBudget event then
      match state.step log event with
      | some next => exec log next rest
      | none => none
    else
      none

theorem exec_run (executed : exec log state events = some state') :
    Run (BudgetedStep log) state events state' := by
  induction events generalizing state with
  | nil =>
    cases executed
    exact .refl
  | cons event rest induction =>
    simp only [exec] at executed
    split at executed
    · rename_i budget
      split at executed
      · rename_i next taken
        exact (Run.single ⟨budget, taken⟩).trans (induction executed)
      · cases executed
    · cases executed

/-- Three operations are admitted at once and each logs ten blocks. -/
def threeFullOps : List GroupEvent :=
  [.beginOp 0, .beginOp 1, .beginOp 2] ++
    (List.range 30).map fun block => .logWrite (block / 10) block

theorem threeFullOps_exec :
    (exec Log.mkfs initial threeFullOps).map (·.panic) = some (some .tooBig) := by
  decide +kernel

end Xv6Lottery.GroupLog
