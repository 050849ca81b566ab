import Xv6Lottery.Kill.Loops
import Xv6Lottery.Sleep.Execution
import Xv6Lottery.Sleep.Guard

/-! A kill() between the killed() test of a loop and its sleep(). -/

namespace Xv6Lottery.Loops

open Sleep Transition

/-- killed() has answered 0, and sleep() may come before the next test. -/
def pipeGap : Pipes.Point → Bool
  | .writeByte _ _ _ _ | .writeFull _ _ _ _ | .writeSleep _ _ _
  | .readSleep _ _ => true
  | _ => false

section Guards

variable {Process : Type}

def gap : Place Process → Bool
  | .pipe point => pipeGap point
  | .waitSleep _ _ | .sleepSleep _ _ | .consSleep _ _ _ => true
  | _ => false

theorem gap_ofPipe (inGap : gap (Place.ofPipe point : Place Process) = true) :
    pipeGap point = true := by
  cases point <;> exact inGap

theorem guarded_ofPipe (guarded : Guarded (pipeGap · = true) point instr) :
    Guarded (gap · = true) (.pipe point) (ofPipe instr) := by
  cases instr with
  | choose options =>
    rintro next ⟨chosen, allowed, rfl⟩ inGap
    exact guarded chosen allowed (gap_ofPipe inGap)
  | acquire lk next => exact fun inGap => guarded (gap_ofPipe inGap)
  | release lk next => exact fun inGap => guarded (gap_ofPipe inGap)
  | sleep chan lk next => exact guarded
  | wakeup chan next => exact fun inGap => guarded (gap_ofPipe inGap)
  | killed next => exact fun inGap => guarded (gap_ofPipe inGap)
  | kill pid next =>
    exact fun answer inGap => guarded answer (gap_ofPipe inGap)
  | access use =>
    exact fun self world inGap => guarded self world.pipe (gap_ofPipe inGap)

variable [FinEnum Process]

theorem pipe_guarded (point : Pipes.Point) :
    Guarded (pipeGap · = true) point (Pipes.code (fun _ => True) point : Instr Process Unit
        Pipes.Channel (Pipes.Shared Process) Pipes.Point) := by
  cases point with
  | home result =>
    rintro next ⟨call, _, rfl⟩ inGap
    exact inGap
  | entering call =>
    cases call with
    | pipewrite n source =>
      intro self shared inGap
      unfold Pipes.argfd at inGap
      dsimp only at inGap
      split at inGap <;> exact inGap
    | piperead n sink =>
      intro self shared inGap
      unfold Pipes.argfd at inGap
      dsimp only at inGap
      split at inGap <;> exact inGap
    | close side =>
      intro self shared inGap
      unfold Pipes.fileclose at inGap
      split at inGap
      · dsimp only at inGap
        split at inGap <;> exact inGap
      · exact inGap
    | kill pid => exact fun _ _ inGap => inGap
  | writeTest n source i stored =>
    intro self shared inGap
    dsimp only at inGap
    split at inGap
    · split at inGap <;> exact inGap
    · exact inGap
  | writeKilled n source i stored => exact nofun
  | writeByte n source i stored => exact fun _ _ _ => rfl
  | writeFull n source i stored => exact fun _ => rfl
  | writeSleep n source i => rfl
  | readTest n sink =>
    intro self shared inGap
    dsimp only at inGap
    split at inGap <;> exact inGap
  | readKilled n sink => exact nofun
  | readSleep n sink => rfl
  | readByte n sink i =>
    intro self shared inGap
    dsimp only [Pipes.readStep] at inGap
    split at inGap
    · split at inGap
      · exact inGap
      · split at inGap <;> exact inGap
    · exact inGap
  | closeFlag side => exact fun _ _ inGap => inGap
  | closeWake side => cases side <;> exact id
  | closeTest => exact fun _ _ inGap => inGap
  | closeLeave last => cases last <;> exact id
  | freeing =>
    rintro next rfl inGap
    exact inGap
  | killing pid => exact fun _ inGap => inGap
  | _ => exact id

theorem loops_guarded (initproc : Process) (place : Place Process) :
    Guarded (gap · = true) place (loops initproc place) := by
  cases place with
  | home result =>
    intro next starts inGap
    cases starts <;> exact inGap
  | pipe point => exact guarded_ofPipe (pipe_guarded point)
  | waitScan copies rest havekids =>
    cases rest with
    | nil =>
      intro self world inGap
      dsimp only at inGap
      split at inGap <;> exact inGap
    | cons child rest =>
      intro self world inGap
      unfold waitStep at inGap
      split at inGap
      · split at inGap
        · exact inGap
        · split at inGap <;> exact inGap
      · exact inGap
  | waitKilled copies self => exact nofun
  | waitSleep copies self => rfl
  | sleepBegin n => exact fun _ _ inGap => inGap
  | sleepTest n ticks0 =>
    intro self world inGap
    dsimp only at inGap
    split at inGap <;> exact inGap
  | sleepKilled n ticks0 => exact nofun
  | sleepSleep n ticks0 => rfl
  | consMore target n sink =>
    intro self world inGap
    dsimp only at inGap
    split at inGap <;> exact inGap
  | consTest target n sink =>
    intro self world inGap
    dsimp only at inGap
    split at inGap <;> exact inGap
  | consKilled target n sink => exact nofun
  | consSleep target n sink => rfl
  | consByte target n sink =>
    intro self world inGap
    dsimp only [consStep] at inGap
    split at inGap
    · exact inGap
    · split at inGap
      · dsimp only at inGap
        split at inGap <;> exact inGap
      · exact inGap
  | killing pid => exact fun _ inGap => inGap
  | exitEnter status =>
    intro self world inGap
    dsimp only at inGap
    split at inGap <;> exact inGap
  | exitScan status rest =>
    cases rest with
    | nil => exact fun _ _ inGap => inGap
    | cons child rest =>
      intro self world inGap
      dsimp only at inGap
      split at inGap <;> exact inGap
  | exitParent status =>
    intro self world inGap
    dsimp only at inGap
    split at inGap <;> exact inGap
  | exitZombie status => exact fun _ _ inGap => inGap
  | dead => exact fun _ none => none.elim
  | tickCount => exact fun _ _ inGap => inGap
  | intrChar c =>
    intro self world inGap
    dsimp only at inGap
    split at inGap <;> exact inGap
  | _ => exact id

end Guards

/-- No process is SLEEPING in a loop although it is killed. -/
def NoKilledSleeper {Process Cpu : Type}
    (machine : Sleep.Machine Process Cpu Spinlock (Channel Process)
      (World Process) (Place Process)) : Prop :=
  ∀ slot, ¬((machine.procs slot).state = .sleeping ∧ (machine.procs slot).killed = true)

theorem killed_process_awake {Process Cpu : Type} [FinEnum Process] [DecidableEq Cpu]
    {initproc : Process} {boot final : Sleep.Machine Process Cpu Spinlock (Channel Process)
      (World Process) (Place Process)} {labels : List (Label Process Spinlock (Channel Process))}
    (boots : boot.Boot fun _ => .home 0) (run : Run (fun machine label after => KillsOutside
      (gap · = true) machine label ∧ machine.Step (loops initproc) label after) boot labels final) :
    NoKilledSleeper final := by
  have unkilled : Unkilled (gap · = true) final :=
    .run (loops_guarded initproc) boots (fun _ => nofun) run
  rintro slot ⟨sleeps, killed⟩
  cases (unkilled.asleep sleeps).symm.trans killed

/-! A reader of an empty pipe, and a process that kills it. -/

namespace Raced

def pick : Place (Fin 2) → Nat → Option (Place (Fin 2))
  | .home _, 0 => some (.pipe (.entering (.piperead 1 fun _ => true)))
  | .home _, 1 => some (.killing 1)
  | _, _ => none

abbrev two : Place (Fin 2) → Instr (Fin 2) Spinlock (Channel (Fin 2))
    (World (Fin 2)) (Place (Fin 2)) :=
  loops 1

theorem pick_sound {options : Place (Fin 2) → Prop} (found : two place = .choose options)
    (picked : pick place choice = some next) : options next := by
  unfold pick at picked
  split at picked
  next =>
    cases found
    cases picked
    exact .pipe
  next =>
    cases found
    cases picked
    exact .kill
  next => cases picked

def boot : Sleep.Machine (Fin 2) (Fin 2) Spinlock (Channel (Fin 2))
    (World (Fin 2)) (Place (Fin 2)) where
  procs slot := ⟨.runnable, none, false, slot + 1⟩
  lock _ := none
  cpus _ := .idle
  threads _ := ⟨.code (.home 0), true⟩
  data :=
    { parent := fun _ => none
      zombie := fun _ => none
      pid := fun slot => slot + 1
      pipe := { pipe := .alloc fun _ => 0, openBy := fun _ _ => true }
      ticks := 0
      cons := ⟨fun _ => 0, 0, 0, 0⟩ }

theorem boots : boot.Boot fun _ => .home 0 :=
  ⟨fun _ => rfl, fun _ => rfl, fun _ => rfl, fun _ => rfl⟩

def asks : List (Action (Fin 2) (Fin 2) (Channel (Fin 2))) :=
  [.dispatch 0 0, .resume 0] ++ List.replicate 5 (.thread 0 0)

def sleeps : List (Action (Fin 2) (Fin 2) (Channel (Fin 2))) :=
  List.replicate 3 (.thread 0 0) ++ [.finish 0]

def seeks : List (Action (Fin 2) (Fin 2) (Channel (Fin 2))) :=
  [.dispatch 1 1, .resume 1, .thread 1 1, .thread 1 0]

def returned : Phase (Fin 2) Spinlock (Channel (Fin 2)) (Place (Fin 2)) → Option Int
  | .code (.home result) => some result
  | _ => none

def raced := boot.played two pick (asks ++ seeks ++ [.thread 1 0] ++ sleeps)

def asleep := boot.played two pick (asks ++ sleeps ++ seeks)

def woken := asleep.played two pick [.thread 1 0]

end Raced

open Raced in
theorem killed_reader_sleeps :
    (∃ labels, Run (Sleep.Machine.Step two) boot labels raced ∧ .kill 1 0 ∈ labels) ∧
      returned (raced.threads 1).phase = some 0 ∧ ¬NoKilledSleeper raced := by
  refine ⟨⟨_, Sleep.Machine.played_run pick_sound (by decide +kernel), ?_⟩, ?_, ?_⟩
  · decide +kernel
  · decide +kernel
  · exact fun awake => awake 0 ⟨by decide +kernel, by decide +kernel⟩

open Raced in
theorem killed_sleeper_wakes : (woken.procs 0).killed = true ∧ NoKilledSleeper woken := by
  have run : Run (Sleep.Machine.Step two) boot
      (boot.trace two pick (asks ++ sleeps ++ seeks)) asleep :=
    Sleep.Machine.played_run pick_sound (by decide +kernel)
  have quiet := run.restrict (fun label => ∀ self victim, label ≠ .kill self victim)
    (fun _ => True) trivial (fun _ _ _ => trivial) (by decide +kernel)
  have kills : asleep.Step two (.kill 1 0) woken :=
    Sleep.Machine.played_step pick_sound (by decide +kernel)
  have outside : ¬(asleep.threads 0).phase.InGap (gap · = true) := by
    decide +kernel
  refine ⟨by decide +kernel, killed_process_awake boots
    (.tail (quiet.mono ?_) ⟨?_, kills⟩)⟩
  · rintro middle label next ⟨⟨spared, _⟩, taken⟩
    exact ⟨fun self victim called => (spared self victim called).elim, taken⟩
  · rintro self victim called
    cases called
    exact outside

end Xv6Lottery.Loops
