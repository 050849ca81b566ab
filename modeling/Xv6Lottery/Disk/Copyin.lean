import Xv6Lottery.Disk.Buffers

/-! The cache is coherent as long as no either_copyin() fails in the middle of
a block that is not in the log. -/

namespace Xv6Lottery.Disk

open Concurrent Transition Function

section Coherence

variable {Agent : Type}

/-- No transaction has begun, the log is empty and every buffer has the data
of the disk. -/
structure Kernel.Quiet (kernel : Kernel Agent) : Prop where
  clean : ∀ b, kernel.Clean b
  lh : kernel.lh = []
  outstanding : kernel.outstanding = 0
  committing : kernel.committing = false
  spoilt : ∀ b, kernel.spoilt b = false

theorem Kernel.Quiet.sound [Fintype Agent] {kernel : Kernel Agent}
    (quiet : kernel.Quiet) : LogSound kernel fun _ => .op 0 where
  counted := quiet.outstanding.trans (Finset.sum_const_zero).symm
  closed := fun _ => quiet.outstanding
  committing := nofun
  alone := nofun
  installed := nofun
  unpinned := by
    rw [quiet.lh]
    exact fun _ => nofun
  spoilt := by
    intro b spoilt
    rw [quiet.spoilt b] at spoilt
    cases spoilt
  clean := fun b _ _ => quiet.clean b

/-- An either_copyin() into a block that is not in the log succeeds or copies
nothing. -/
def Op.Careful (lh : LogHeader) {result : Type} : Op Agent result → Prop
  | .copyin b _ src start count => b ∉ lh →
      src.copied start count = [] ∨ (src.copied start count).length = count
  | _ => True

instance (lh : LogHeader) {result : Type} :
    (operation : Op Agent result) → Decidable (operation.Careful lh)
  | .copyin .. => inferInstanceAs (Decidable (_ → _ ∨ _))
  | .block .. | .mem _ | .beginOp | .endOp | .logLength | .writeLog _
  | .writeHead | .install _ | .clearLog | .finishOp | .recycle _
  | .panic _ => .isTrue trivial

theorem logWrite_unspoilt {kernel next : Kernel Agent} {result : Type} {answer value : result}
    (done : kernel.logWrite sb b data answer = .done value next)
    (unspoilt : ∀ b, kernel.spoilt b = false) : ∀ b, next.spoilt b = false := by
  unfold Kernel.logWrite at done
  split at done
  · cases done
  split at done
  · cases done
  cases done
  intro other
  by_cases same : other = b
  · rw [same]
    exact update_self ..
  · exact (update_of_ne same ..).trans (unspoilt other)

theorem sem_unspoilt {result : Type} {self : Agent} {operation : Op Agent result}
    {answer : result} (done : sem sb result self operation kernel = .done answer next)
    (careful : operation.Careful kernel.lh) (unspoilt : ∀ b, kernel.spoilt b = false) :
    ∀ b, next.spoilt b = false := by
  cases operation with
  | block site b use =>
    simp only [sem] at done
    split at done
    · exact logWrite_unspoilt done unspoilt
    · cases done
      exact unspoilt
  | copyin b offset src start count =>
    simp only [sem, Kernel.copyin] at done
    split at done
    · exact logWrite_unspoilt done unspoilt
    next short =>
      cases done
      have unchanged : src.copied start count = [] ∨ b ∈ kernel.lh := by
        by_cases inside : b ∈ kernel.lh
        · exact .inr inside
        · exact .inl ((careful inside).resolve_right short)
      simp only [if_pos unchanged]
      exact unspoilt
  | mem use =>
    simp only [sem] at done
    split at done
    · cases done
    · cases done
    · cases done
      exact unspoilt
  | beginOp =>
    simp only [sem, Kernel.beginOp] at done
    split at done
    · cases done
    · cases done
      exact unspoilt
  | endOp =>
    simp only [sem, Kernel.endOp] at done
    split at done
    · cases done
    split at done
    · cases done
      exact unspoilt
    · cases done
      exact unspoilt
  | logLength =>
    cases done
    exact unspoilt
  | writeLog tail =>
    cases done
    exact unspoilt
  | writeHead =>
    cases done
    exact unspoilt
  | install tail =>
    cases done
    exact unspoilt
  | clearLog =>
    cases done
    exact unspoilt
  | finishOp =>
    cases done
    exact unspoilt
  | recycle b =>
    cases done
    intro other
    unfold Kernel.recycle
    split
    · exact unspoilt other
    · by_cases same : other = b
      · rw [same]
        exact update_self ..
      · exact (update_of_ne same ..).trans (unspoilt other)
  | panic reason => cases done

variable [DecidableEq Agent]

def Pending (lh : LogHeader) : Option (Call × FsProg Agent Int) → Prop
  | some (_, .op operation _) => operation.Careful lh
  | _ => True

instance (lh : LogHeader) : (running : Option (Call × FsProg Agent Int)) →
      Decidable (Pending lh running)
  | some (_, .op operation _) =>
    inferInstanceAs (Decidable (operation.Careful lh))
  | some (_, .pure _) | none => .isTrue trivial

def Careful (machine : Machine (Op Agent) (Kernel Agent) Failure Agent Call) :
    Event Agent Call → Prop
  | .act self => Pending machine.state.lh (machine.running self)
  | _ => True

instance (machine : Machine (Op Agent) (Kernel Agent) Failure Agent Call) :
    (event : Event Agent Call) → Decidable (Careful machine event)
  | .act self => inferInstanceAs (Decidable (Pending _ (machine.running self)))
  | .call .. | .ret .. => .isTrue trivial

def CarefulStep (sb : Superblock) (machine : Machine (Op Agent) (Kernel Agent) Failure Agent Call)
    (event : Event Agent Call)
    (next : Machine (Op Agent) (Kernel Agent) Failure Agent Call) : Prop :=
  Careful machine event ∧ Step (calls sb) machine event next

theorem CarefulStep.unspoilt {event : Event Agent Call}
    (taken : CarefulStep sb machine event next) (unspoilt : ∀ b, machine.state.spoilt b = false) :
    ∀ b, next.state.spoilt b = false := by
  obtain ⟨careful, step⟩ := taken
  cases step with
  | call => exact unspoilt
  | @act _ self request _ operation rest answer finish going running done =>
    have known : Pending machine.state.lh (machine.running self) := careful
    rw [running] at known
    exact sem_unspoilt done known unspoilt
  | stop => exact unspoilt
  | ret => exact unspoilt

def Outside (_ : Agent) (point : LogPoint) : Prop := point = .op 0

variable [Fintype Agent]

theorem run_coherent (quiet : kernel.Quiet) {events : List (Event Agent Call)}
    (run : Run (CarefulStep sb) (.start kernel) events machine) :
    ∀ b, b ∉ machine.state.lh → machine.state.Clean b := by
  have steps : Run (fun machine event next => True ∧
      Step (calls sb) machine event next) (.start kernel) events machine :=
    run.mono fun taken => ⟨trivial, taken.2⟩
  have safe : ∀ (self : Agent) (request : Call) (known : LogPoint), Outside self known →
      Safe (calls sb).sem LogSound (fun _ => True) (fun _ => True)
        (fun _ _ => True) self ((calls sb).body request) (fun _ => Outside self) known := by
    intro self request known outside
    subst outside
    exact Keeps.body request
  have resting : ∀ self : Agent, Outside self (.op 0) := fun _ => rfl
  obtain ⟨knowledge, kept⟩ := run_kept quiet.sound resting safe steps
  have unspoilt := run.invariant (fun machine => ∀ b, machine.state.spoilt b = false) quiet.spoilt
    fun holds taken => taken.unspoilt holds
  exact fun b absent => kept.holds.clean b absent (unspoilt b)

/-- In every run whose steps are careful, a valid buffer of a block that is not
in the log has the data of the disk. -/
theorem unlogged_buffers_coherent {sb : Superblock} {kernel : Kernel Agent} (quiet : kernel.Quiet)
    {events : List (Event Agent Call)}
    {machine : Machine (Op Agent) (Kernel Agent) Failure Agent Call}
    (run : Run (CarefulStep sb) (.start kernel) events machine) (b : Nat)
    (unlogged : b ∉ machine.state.lh) :
    (∀ data, machine.state.cache b = some data → data = machine.state.disk b) ∧
      (machine.state.recycle b).view b = machine.state.view b := by
  have clean := run_coherent quiet run b unlogged
  refine ⟨clean, ?_⟩
  unfold Kernel.recycle
  split
  · rfl
  · have gone := congrArg (Option.getD · (machine.state.disk b))
      (update_self b none machine.state.cache)
    exact gone.trans clean.view.symm

end Coherence

/-! A file of one block that its only process has open for writing, on a disk
as mkfs makes it. -/

section Example

def mkfsSuper : Superblock where
  size := 2000
  nblocks := 1954
  ninodes := 200
  nlog := 30
  logstart := 2
  inodestart := 32
  bmapstart := 45

def smallFile : Inode where
  type := tFile
  major := 0
  minor := 0
  nlink := 1
  size := 1
  addrs := fun i => if i = 0 then 100 else 0

def openMem : Mem (Fin 1) where
  itable := fun slot => if slot = 0 then
      { key := ⟨rootdev, 2⟩
        ref := 1
        lock := none
        valid := true
        copy := smallFile }
    else
      { key := ⟨rootdev, rootino⟩
        ref := if slot = 1 then 1 else 0
        lock := none
        valid := false
        copy := .cleared 0 }
  ftable := fun f =>
    { ref := if f = 0 then 1 else 0
      kind := if f = 0 then .inode else .none
      readable := true
      writable := true
      ip := 0
      off := 0
      major := 0 }
  ofile := fun _ fd => if fd = 0 then some 0 else none
  cwd := fun _ => 1

def openKernel : Kernel (Fin 1) where
  cache := fun _ => none
  disk := fun b => if b = 32 then
      Inode.store (Inode.store Block.zero 1 { Inode.cleared tDir with nlink := 1 }) 2 smallFile
    else if b = 45 then Vector.replicate bsize 255
    else Block.zero
  pinned := fun _ => false
  spoilt := fun _ => false
  lh := []
  outstanding := 0
  committing := false
  mem := openMem

theorem openKernel_quiet : openKernel.Quiet where
  clean := fun _ => nofun
  lh := rfl
  outstanding := rfl
  committing := rfl
  spoilt := fun _ => rfl

def writeEvents (src : Source) : List (Event (Fin 1) Call) :=
  .call 0 (.write (some 0) src 2 0) :: (List.replicate 23 (.act 0) ++ [.ret 0 (-1)])

def halfMapped : Source := fun offset => if offset = 0 then some 7 else none

/-- A write() whose buffer is not mapped at all. -/
theorem unmapped_write_coherent :
    ∃ machine, Run (CarefulStep mkfsSuper) (.start openKernel) (writeEvents fun _ => none) machine ∧
      100 ∉ machine.state.lh ∧ machine.state.cache 100 = some (machine.state.disk 100) := by
  have checked : ((Machine.start openKernel).exec (calls mkfsSuper)
      (fun machine event => Careful machine event) (writeEvents fun _ => none)).any (fun machine =>
        decide (100 ∉ machine.state.lh) &&
        (machine.state.cache 100).isSome) = true := by
    decide +kernel
  cases done : (Machine.start openKernel).exec (calls mkfsSuper)
      (fun machine event => Careful machine event) (writeEvents fun _ => none) with
  | none =>
    rw [done] at checked
    cases checked
  | some machine =>
    rw [done] at checked
    simp only [Option.any_some, Bool.and_eq_true, decide_eq_true_eq] at checked
    obtain ⟨unlogged, cached⟩ := checked
    obtain ⟨data, cached⟩ := Option.isSome_iff_exists.mp cached
    have run : Run (CarefulStep mkfsSuper) (.start openKernel)
        (writeEvents fun _ => none) machine :=
      (Machine.exec_run done).mono fun taken =>
        ⟨of_decide_eq_true taken.1, taken.2⟩
    have clean := (unlogged_buffers_coherent openKernel_quiet run 100 unlogged).1 data cached
    rw [clean] at cached
    exact ⟨machine, run, unlogged, cached⟩

/-- A write() that fails in the middle leaves its buffer unlogged, and what a
read() returns depends on whether it is recycled. -/
theorem half_mapped_write_spoils_buffer :
    openKernel.Quiet ∧ ∃ machine data, Run (Step (calls mkfsSuper)) (.start openKernel)
      (writeEvents halfMapped) machine ∧ machine.running 0 = none ∧ 100 ∉ machine.state.lh ∧
      machine.state.cache 100 = some data ∧ data ≠ machine.state.disk 100 ∧
      (machine.state.recycle 100).view 100 ≠ machine.state.view 100 := by
  refine ⟨openKernel_quiet, ?_⟩
  have checked : ((Machine.start openKernel).exec (calls mkfsSuper)
      (fun _ _ => true) (writeEvents halfMapped)).any (fun machine =>
        (machine.running 0).isNone && decide (100 ∉ machine.state.lh) &&
        ((machine.state.cache 100).any fun data => data.byte 0 = 7) &&
        decide (((machine.state.recycle 100).view 100).byte 0 = 0) &&
        decide ((machine.state.disk 100).byte 0 = 0)) = true := by
    decide +kernel
  cases done : (Machine.start openKernel).exec (calls mkfsSuper)
      (fun _ _ => true) (writeEvents halfMapped) with
  | none =>
    rw [done] at checked
    cases checked
  | some machine =>
    rw [done] at checked
    simp only [Option.any_some, Bool.and_eq_true, decide_eq_true_eq,
      Option.isNone_iff_eq_none, Option.any_eq_true] at checked
    obtain ⟨⟨⟨⟨idle, unlogged⟩, data, cached, seven⟩, recycled⟩, zero⟩ :=
      checked
    have view : machine.state.view 100 = data := by
      unfold Kernel.view
      rw [cached, Option.getD_some]
    refine ⟨machine, data, (Machine.exec_run done).mono And.right, idle,
      unlogged, cached, fun same => ?_, fun same => ?_⟩
    · rw [← same, seven] at zero
      cases zero
    · rw [same, view, seven] at recycled
      cases recycled

end Example

end Xv6Lottery.Disk
