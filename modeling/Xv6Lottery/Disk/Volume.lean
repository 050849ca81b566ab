import Xv6Lottery.Disk.Kernel
import Xv6Lottery.Lib.Alone

/-! The file system above the buffer cache: the blocks as bread() returns
them, and the blocks that go to log_write(). -/

namespace Xv6Lottery.Disk

open Concurrent Function

structure Volume (Agent : Type) where
  block : Nat → Block
  /-- The blocks whose data a failed either_copyin() has changed since it was
  last logged; their buffers may be lost. -/
  spoilt : Nat → Bool
  /-- The blocks that log_write() got, the last one first. -/
  logged : List Nat
  mem : Mem Agent

variable {Agent : Type}

namespace Volume

def logWrite (volume : Volume Agent) (b : Nat) (data : Block) : Volume Agent :=
  { volume with
      block := update volume.block b data
      spoilt := update volume.spoilt b false
      logged := b :: volume.logged }

def copyin (volume : Volume Agent) (b offset : Nat) (src : Source)
    (start count : Nat) : Concurrent.Effect (Volume Agent) Failure Bool :=
  let bytes := src.copied start count
  let data := (volume.block b).setBytes offset bytes
  if bytes.length = count then
    .done true (volume.logWrite b data)
  else
    .done false { volume with
      block := update volume.block b data
      spoilt := update volume.spoilt b true }

/-- The operations of fs.c; those of the log and of the buffer cache are
below. -/
def sem (result : Type) (self : Agent) : Op Agent result → Volume Agent →
      Concurrent.Effect (Volume Agent) Failure result
  | .block _ b use, volume =>
    match use (volume.block b) with
    | (answer, data, true) => .done answer (volume.logWrite b data)
    | (answer, data, false) => .done answer { volume with
        block := update volume.block b data }
  | .copyin b offset src start count, volume =>
    volume.copyin b offset src start count
  | .mem use, volume =>
    match use self volume.mem with
    | .wait => .wait
    | .stop reason => .stop reason
    | .done answer mem => .done answer { volume with mem := mem }
  | .panic reason, _ => .stop reason
  | _, _ => .wait

end Volume

/-! The operations of an inode whose lock the process has. -/

def Mem.setCopy (mem : Mem Agent) (ip : Fin ninode) (copy : Inode) : Mem Agent :=
  { mem with
      itable := mem.itable.setCopy ip (mem.itable ip).valid copy }

namespace Mem

variable (mem : Mem Agent) (ip : Fin ninode) (copy : Inode)

@[simp] theorem setCopy_copy : ((mem.setCopy ip copy).itable ip).copy = copy := by
  simp only [setCopy, Itable.setCopy, update_self]

@[simp] theorem setCopy_key : ((mem.setCopy ip copy).itable ip).key = (mem.itable ip).key := by
  simp only [setCopy, Itable.setCopy, update_self]

@[simp] theorem setCopy_setCopy (later : Inode) :
    (mem.setCopy ip copy).setCopy ip later = mem.setCopy ip later := by
  simp only [setCopy, Itable.setCopy, update_self, update_idem]

@[simp] theorem setCopy_self : mem.setCopy ip (mem.itable ip).copy = mem := by
  simp only [setCopy, Itable.setCopy, update_eq_self]

end Mem

abbrev Runs (self : Agent) {value : Type} (prog : FsProg Agent value)
    (volume : Volume Agent) (post : value → Volume Agent → Prop) : Prop :=
  prog.Returns Volume.sem self volume post

namespace Runs

variable {self : Agent} {volume : Volume Agent} {value : Type} {ip : Fin ninode}

theorem readIp {post : TableEntry Agent Inode → Volume Agent → Prop}
    (holds : post (volume.mem.itable ip) volume) : Runs self (Disk.readIp ip) volume post :=
  Prog.Returns.perform rfl holds

theorem writeIp {post : Unit → Volume Agent → Prop}
    (holds : post () { volume with
      mem := volume.mem.setCopy ip (change (volume.mem.itable ip).copy) }) :
    Runs self (Disk.writeIp ip change) volume post :=
  Prog.Returns.perform rfl holds

theorem bread {post : value → Volume Agent → Prop}
    (reads : use (volume.block b) = (answer, volume.block b, false)) (holds : post answer volume) :
    Runs self (.perform (.block site b use)) volume post := by
  refine Prog.Returns.perform ?_ holds
  simp only [Volume.sem, reads, update_eq_self]

theorem logWrite {post : value → Volume Agent → Prop}
    (writes : use (volume.block b) = (answer, data, true))
    (holds : post answer (volume.logWrite b data)) :
    Runs self (.perform (.block site b use)) volume post := by
  refine Prog.Returns.perform ?_ holds
  simp only [Volume.sem, writes]

theorem copyin {post : Bool → Volume Agent → Prop}
    (whole : (src.copied start count).length = count → post true (volume.logWrite b
        ((volume.block b).setBytes offset (src.copied start count))))
    (short : (src.copied start count).length ≠ count → post false
      { volume with
        block := update volume.block b ((volume.block b).setBytes offset (src.copied start count))
        spoilt := update volume.spoilt b true }) :
    Runs self (.perform (.copyin b offset src start count)) volume post := by
  by_cases copied : (src.copied start count).length = count
  · refine Prog.Returns.perform ?_ (whole copied)
    simp only [Volume.sem, Volume.copyin, if_pos copied]
  · refine Prog.Returns.perform ?_ (short copied)
    simp only [Volume.sem, Volume.copyin, if_neg copied]

end Runs

/-! The buffer cache and the log below a volume. -/

namespace Kernel

theorem view_setBuf (kernel : Kernel Agent) (b : Nat) (data : Block) :
    (kernel.setBuf b data).view = update kernel.view b data := by
  funext c
  unfold view setBuf
  by_cases same : c = b
  · rw [same, update_self]
    simp only [update_self, Option.getD_some]
  · rw [update_of_ne same]
    simp only [update_of_ne same]

/-- What a process sees of the kernel after operations on an earlier one. -/
structure Shows (first kernel : Kernel Agent) (volume : Volume Agent) : Prop where
  view : kernel.view = volume.block
  mem : kernel.mem = volume.mem
  lh : ∃ fresh : List Nat, fresh.Nodup ∧ kernel.lh = first.lh ++ fresh ∧
    ∀ b, b ∈ fresh → b ∈ volume.logged
  logged : ∀ b ∈ volume.logged, b ∈ kernel.lh
  outstanding : kernel.outstanding = first.outstanding
  committing : kernel.committing = first.committing

def volume (kernel : Kernel Agent) : Volume Agent where
  block := kernel.view
  spoilt := fun _ => false
  logged := []
  mem := kernel.mem

theorem shows_volume (kernel : Kernel Agent) : Shows kernel kernel kernel.volume where
  view := rfl
  mem := rfl
  lh := ⟨[], .nil, (List.append_nil _).symm, nofun⟩
  logged := nofun
  outstanding := rfl
  committing := rfl

/-- log_write() panics if the header has so many blocks. -/
def logLimit (sb : Superblock) : Nat := min logSize (sb.nlog - 1)

/-- log_write() panics if the header is full or no transaction is open. -/
def Refuses (sb : Superblock) (kernel : Kernel Agent) (reason : Failure) :
    Prop :=
  (reason = .logTooBig ∧ logLimit sb ≤ kernel.lh.length) ∨
    (reason = .logOutside ∧ kernel.outstanding = 0)

namespace Shows

variable (sb : Superblock) {first kernel : Kernel Agent} {volume : Volume Agent}

theorem logWrite (shows_ : Shows first kernel volume) (b : Nat) (data : Block) {result : Type}
    (answer : result) :
    (∃ reason, kernel.Refuses sb reason ∧ kernel.logWrite sb b data answer = .stop reason) ∨ ∃ next,
      kernel.logWrite sb b data answer = .done answer next ∧
      Shows first next (volume.logWrite b data) := by
  unfold Kernel.logWrite
  by_cases full : logSize ≤ kernel.lh.length ∨ sb.nlog - 1 ≤ kernel.lh.length
  · refine .inl ⟨.logTooBig, .inl ⟨rfl, ?_⟩, if_pos full⟩
    unfold logLimit
    omega
  rw [if_neg full]
  by_cases outside : kernel.outstanding < 1
  · exact .inl ⟨.logOutside, .inr ⟨rfl, by omega⟩, if_pos outside⟩
  · rw [if_neg outside]
    refine .inr ⟨_, rfl, ?_⟩
    obtain ⟨fresh, nodup, lh, known⟩ := shows_.lh
    exact {
      view := by
        refine (view_setBuf kernel b data).trans ?_
        rw [shows_.view]
        rfl
      mem := shows_.mem
      lh := by
        by_cases old : b ∈ kernel.lh
        · refine ⟨fresh, nodup, ?_, fun c member => .tail _ (known c member)⟩
          rw [← lh]
          exact if_pos old
        · refine ⟨fresh ++ [b], ?_, ?_, fun c member => ?_⟩
          · have apart : b ∉ fresh := fun member =>
              old (lh ▸ List.mem_append_right _ member)
            exact List.nodup_append.mpr ⟨nodup, List.nodup_singleton b,
              fun c member d single same => apart (List.mem_singleton.mp single ▸ same ▸ member)⟩
          · rw [← List.append_assoc, ← lh]
            exact if_neg old
          · rcases List.mem_append.mp member with older | newer
            · exact .tail _ (known c older)
            · rw [List.mem_singleton.mp newer]
              exact .head _
      logged := by
        intro c member
        change c ∈ (if b ∈ kernel.lh then kernel.lh else kernel.lh ++ [b])
        rcases List.mem_cons.mp member with rfl | older
        · split
          next old => exact old
          · exact List.mem_append_right _ (.head _)
        · have old := shows_.logged c older
          split
          · exact old
          · exact List.mem_append_left _ old
      outstanding := shows_.outstanding
      committing := shows_.committing }

theorem setBuf (shows_ : Shows first kernel volume) (b : Nat)
    (data : Block) (spoilt spoilt' : Nat → Bool) :
    Shows first { kernel.setBuf b data with spoilt := spoilt }
      { volume with
        block := update volume.block b data
        spoilt := spoilt' } where
  view := by
    refine (view_setBuf kernel b data).trans ?_
    rw [shows_.view]
  mem := shows_.mem
  lh := shows_.lh
  logged := shows_.logged
  outstanding := shows_.outstanding
  committing := shows_.committing

theorem step (shows_ : Shows first kernel volume) {result : Type} {operation : Op Agent result}
    {answer : result} (done : Volume.sem _ self operation volume = .done answer finish) :
    (∃ reason, (kernel.Refuses sb reason ∧ finish.logged ≠ []) ∧
        Disk.sem sb _ self operation kernel = .stop reason) ∨ ∃ next,
      Disk.sem sb _ self operation kernel = .done answer next ∧ Shows first next finish := by
  have logs : ∀ (b : Nat) (data : Block) {result : Type} (answer : result),
      (∃ reason, (kernel.Refuses sb reason ∧ (volume.logWrite b data).logged ≠ []) ∧
        kernel.logWrite sb b data answer = .stop reason) ∨
      ∃ next, kernel.logWrite sb b data answer = .done answer next ∧
        Shows first next (volume.logWrite b data) := by
    intro b data result answer
    refine (shows_.logWrite sb b data answer).imp (fun refused => ?_) id
    obtain ⟨reason, refuses, stops⟩ := refused
    exact ⟨reason, ⟨refuses, nofun⟩, stops⟩
  cases operation with
  | block site b use =>
    simp only [Volume.sem, Disk.sem, shows_.view] at done ⊢
    generalize use (volume.block b) = effect at done ⊢
    obtain ⟨value, data, log⟩ := effect
    cases log with
    | true =>
      cases done
      exact logs b data _
    | false =>
      cases done
      exact .inr ⟨_, rfl, shows_.setBuf b data _ _⟩
  | copyin b offset src start count =>
    simp only [Volume.sem, Disk.sem, Volume.copyin, Kernel.copyin, shows_.view] at done ⊢
    split at done
    next whole =>
      cases done
      rw [if_pos whole]
      exact logs b _ _
    next short =>
      cases done
      rw [if_neg short]
      exact .inr ⟨_, rfl, shows_.setBuf b _ _ _⟩
  | mem use =>
    simp only [Volume.sem, Disk.sem, shows_.mem] at done ⊢
    generalize use self volume.mem = effect at done ⊢
    cases effect with
    | wait => cases done
    | stop reason => cases done
    | done value mem =>
      cases done
      exact .inr ⟨_, rfl, shows_.view, rfl, shows_.lh, shows_.logged,
        shows_.outstanding, shows_.committing⟩
  | panic reason => cases done
  | beginOp => cases done
  | endOp => cases done
  | logLength => cases done
  | writeLog tail => cases done
  | writeHead => cases done
  | install tail => cases done
  | clearLog => cases done
  | finishOp => cases done
  | recycle b => cases done

end Shows

end Kernel

theorem Volume.logged_mono {result : Type} {operation : Op Agent result} {answer : result}
    (done : Volume.sem _ self operation volume = .done answer finish) :
    volume.logged ⊆ finish.logged := by
  cases operation with
  | block site b use =>
    simp only [Volume.sem] at done
    split at done
    · cases done
      exact List.subset_cons_self ..
    · cases done
      exact List.Subset.refl _
  | copyin b offset src start count =>
    simp only [Volume.sem, Volume.copyin] at done
    split at done
    · cases done
      exact List.subset_cons_self ..
    · cases done
      exact List.Subset.refl _
  | mem use =>
    simp only [Volume.sem] at done
    split at done
    · cases done
    · cases done
    · cases done
      exact List.Subset.refl _
  | panic reason => cases done
  | beginOp => cases done
  | endOp => cases done
  | logLength => cases done
  | writeLog tail => cases done
  | writeHead => cases done
  | install tail => cases done
  | clearLog => cases done
  | finishOp => cases done
  | recycle b => cases done

namespace Kernel

variable {sb : Superblock} {self : Agent} {value : Type}
  {prog : FsProg Agent value} {kernel : Kernel Agent} {post : value → Volume Agent → Prop}

/-- It does not panic if the header has room for the blocks. -/
theorem run_of_room (within : 0 < kernel.outstanding) {count : Nat}
    (returns : Runs self prog kernel.volume fun answer volume => post answer volume ∧
      volume.logged.toFinset.card ≤ count) (room : kernel.lh.length + count < logLimit sb) :
    ∃ answer finish volume, prog.run (Disk.sem sb) self kernel = .done answer finish ∧
      Shows kernel finish volume ∧ post answer volume := by
  obtain ⟨answer, volume, done, holds, few⟩ := returns
  have simulated := Prog.run_simulates (Shows kernel)
    (fun volume => volume.logged.toFinset.card ≤ count) (fun _ => False)
    (fun done small => (Finset.card_le_card fun b member => by
      rw [List.mem_toFinset] at member ⊢
      exact Volume.logged_mono done member).trans small)
    (fun shows_ done small => by
      refine (shows_.step sb done).imp (fun refused => ?_) id
      obtain ⟨reason, ⟨⟨_, full⟩ | ⟨_, outside⟩, _⟩, _⟩ := refused
      · obtain ⟨fresh, nodup, lh, known⟩ := shows_.lh
        have bound : fresh.length ≤ count := by
          rw [← List.toFinset_card_of_nodup nodup]
          refine (Finset.card_le_card fun b member => ?_).trans small
          rw [List.mem_toFinset] at member ⊢
          exact Volume.logged_mono done (known b member)
        rw [lh, List.length_append] at full
        omega
      · rw [shows_.outstanding] at outside
        omega)
    kernel.shows_volume done few
  obtain ⟨reason, never, _⟩ | ⟨finish, returns, shows_⟩ := simulated
  · exact never.elim
  · exact ⟨answer, finish, volume, returns, shows_, holds⟩

theorem run_of_reading (sb : Superblock) (returns : Runs self prog kernel.volume fun answer volume
      => post answer volume ∧ volume.logged = []) :
    ∃ answer finish volume, prog.run (Disk.sem sb) self kernel = .done answer finish ∧
      Shows kernel finish volume ∧ post answer volume := by
  obtain ⟨answer, volume, done, holds, nothing⟩ := returns
  have simulated := Prog.run_simulates (Shows kernel)
    (fun volume => volume.logged = []) (fun _ => False)
    (fun done none => List.subset_nil.mp (none ▸ Volume.logged_mono done))
    (fun shows_ done none => (shows_.step sb done).imp
      (fun ⟨_, ⟨_, some_⟩, _⟩ => (some_ none).elim) id) kernel.shows_volume done nothing
  obtain ⟨reason, never, _⟩ | ⟨finish, returns, shows_⟩ := simulated
  · exact never.elim
  · exact ⟨answer, finish, volume, returns, shows_, holds⟩

end Kernel

end Xv6Lottery.Disk
