import Xv6Lottery.Fs.Settled

namespace Xv6Lottery

open Outcome.Prog During LinkGraph.DirGraph

/-! The calls on descriptors and current directories. They add no link and
take none away; inodes without links are freed when their last reference
goes. -/

structure Fs.Frees (fs next : Fs) : Prop where
  settled : Settled next
  ninodes : next.ninodes = fs.ninodes
  dropped : Dropped fs.inode.graph next.inode.graph

theorem Fs.Frees.trans {fs middle next : Fs} (first : fs.Frees middle)
    (second : middle.Frees next) : fs.Frees next where
  settled := second.settled
  ninodes := second.ninodes.trans first.ninodes
  dropped := first.dropped.trans second.dropped

namespace Settled

variable {fs : Fs} {pid : Slot} {fail : Panic → Prop} (settled : Settled fs)

include settled

theorem frees_refl : fs.Frees fs := ⟨settled, rfl, .refl⟩

theorem setProc (cwd : process.cwd = (fs.proc pid).cwd) : fs.Frees (fs.setProc pid process) := by
  have during := settled.during.setProc pid process
  have holders := Fs.holders_setProc_same cwd
  rw [← holders] at during
  refine ⟨during.settled settled.files ?_, rfl, .refl⟩
  rw [holders]
  exact settled.intact

theorem setFile (ip : file.ip = (fs.ftable f).ip) (unused : file.ref = 0 → file.ip = none) :
    fs.Frees (fs.setFile f file) := by
  have during := settled.during.setFile f file
  have holders := Fs.holders_setFile_same ip
  rw [← holders] at during
  refine ⟨during.settled (fs.files_setFile settled.files f unused) ?_, rfl, .refl⟩
  rw [holders]
  exact settled.intact

theorem setOfile_spec (fd : Fin nofile) (f : Option (Fin nfile)) :
    wp (setOfile pid fd f) (fun _ next => fs.Frees next ∧ ∀ other, (next.proc other).cwd =
        (fs.proc other).cwd) fail fs := by
  simp only [setOfile, wp_modify]
  refine ⟨settled.setProc rfl, fun other => ?_⟩
  by_cases same : other = pid
  · rw [same, fs.setProc_self]
  · rw [fs.setProc_of_ne same]

/-! The end of a call that gave up one reference of a process or file. -/

theorem put_frees (holders : fs.holders = inum ::ₘ start.holders)
    (ninodes : start.ninodes = fs.ninodes)
    (files : ∀ f, (start.ftable f).ref = 0 → (start.ftable f).ip = none)
    (during : During start (fs.inode.reclaim (start.holders + 0) inum) start.holders 0 ∅ next) :
    fs.Frees next := by
  have intact := settled.intact
  rw [holders] at intact
  have used := intact.held inum (Multiset.mem_cons_self ..)
  rw [add_zero] at during
  refine ⟨during.settled files ?_, during.ninodes.trans ninodes, ?_⟩
  · rw [ninodes]
    exact intact.put
  · rw [during.inode, Tree.graph_reclaim used]
    exact Dropped.refl.drop (Tree.kind_used used) start.holders

section

variable (others : ∀ reason, reason ≠ .ilockNoType → reason ≠ .unlinkNlink → fail reason)

include others

theorem fileclose_spec
    (f : Fin nfile) :
    wp (fileclose f) (fun _ next => fs.Frees next ∧ next.proc = fs.proc) fail fs := by
  simp only [fileclose, wp_bind, wp_get, wp_ite, wp_throw, wp_modify]
  refine ⟨fun _ => others _ (by decide) (by decide), fun _ => ⟨fun several => ?_, fun last => ?_⟩⟩
  · exact ⟨settled.setFile rfl fun zero => by simp only at zero; omega, rfl⟩
  · have total := fs.holders_setFile f { ref := 0, ip := none }
    cases open_ : (fs.ftable f).ip with
    | none =>
      exact ⟨settled.setFile open_.symm fun _ => rfl, rfl⟩
    | some inum =>
      rw [open_] at total
      have holders : fs.holders = inum ::ₘ (fs.setFile f { ref := 0, ip := none }).holders := by
        rw [← Multiset.singleton_add, add_comm]
        simpa using total.symm
      have during := settled.during.setFile f { ref := 0, ip := none }
      rw [holders] at during
      refine wp_mono (during.iput_held settled.intact.root_nlink
        (Set.notMem_empty inum)) fun _ next later => ⟨?_, later.proc⟩
      exact settled.put_frees holders rfl (fs.files_setFile settled.files f fun _ => rfl) later

theorem sysClose_spec (fd : Int) :
    wp (sysClose pid fd) (fun _ next => fs.Frees next) fail fs := by
  unfold sysClose
  split
  · simp only [wp_bind, wp_get]
    split
    · exact settled.frees_refl
    · simp only [wp_bind, wp_pure]
      refine wp_mono (settled.setOfile_spec _ none) ?_
      rintro _ middle ⟨frees, _⟩
      refine wp_mono (frees.settled.fileclose_spec others _) ?_
      exact fun _ next later => frees.trans later.1
  · exact settled.frees_refl

theorem closeAll_spec (fds : List (Fin nofile)) :
    wp (closeAll pid fds) (fun _ next => fs.Frees next) fail fs := by
  induction fds generalizing fs with
  | nil => exact settled.frees_refl
  | cons fd rest induction =>
    simp only [closeAll, wp_bind, wp_get]
    split
    · exact induction settled
    · simp only [wp_bind]
      refine wp_mono (settled.fileclose_spec others _) ?_
      rintro _ middle ⟨closed, _⟩
      refine wp_mono (closed.settled.setOfile_spec fd none) ?_
      rintro _ next ⟨cleared, _⟩
      refine wp_mono (induction cleared.settled) ?_
      exact fun _ next later => (closed.trans cleared).trans later

theorem exitFiles_spec :
    wp (exitFiles pid) (fun _ next => fs.Frees next) fail fs := by
  simp only [exitFiles, wp_bind, wp_ite, wp_throw, wp_pure]
  refine ⟨fun _ => others _ (by decide) (by decide), fun _ => ?_⟩
  refine wp_mono (settled.closeAll_spec others _) fun _ fs frees => ?_
  simp only [putCwd, wp_bind, wp_get]
  cases cwd : (fs.proc pid).cwd with
  | none => exact others _ (by decide) (by decide)
  | some inum =>
    have total :=
      fs.holders_setProc pid { fs.proc pid with cwd := none }
    rw [cwd] at total
    have holders : fs.holders = inum ::ₘ
        (fs.setProc pid { fs.proc pid with cwd := none }).holders := by
      rw [← Multiset.singleton_add, add_comm]
      simpa using total.symm
    have during := frees.settled.during
    rw [holders] at during
    refine wp_mono (during.iput_held frees.settled.intact.root_nlink
      (Set.notMem_empty inum)) fun _ next later => ?_
    simp only [setCwd, wp_modify]
    rw [later.proc]
    exact frees.trans (frees.settled.put_frees holders rfl
      frees.settled.files (later.setProc pid _))

end

/-! fork() takes references for the child. -/

section

variable (others : ∀ reason, reason ≠ .ilockNoType → reason ≠ .unlinkNlink → fail reason)

include others

theorem dupAll_spec
    (child : Slot) (fds : List (Fin nofile)) :
    wp (dupAll pid child fds) (fun _ next => fs.Frees next ∧ ∀ other, (next.proc other).cwd =
        (fs.proc other).cwd) fail fs := by
  induction fds generalizing fs with
  | nil => exact ⟨settled.frees_refl, fun _ => rfl⟩
  | cons fd rest induction =>
    simp only [dupAll, wp_bind, wp_get]
    split
    · exact induction settled
    · next f _ =>
        simp only [filedup, wp_bind, wp_get, wp_ite, wp_throw, wp_modify]
        refine ⟨fun _ => others _ (by decide) (by decide), fun _ => ?_⟩
        have counted : fs.Frees (fs.setFile f { fs.ftable f with ref := (fs.ftable f).ref + 1 }) :=
          settled.setFile rfl (by rintro ⟨⟩)
        refine wp_mono (counted.settled.setOfile_spec fd (some f)) ?_
        rintro _ middle ⟨named, cwds⟩
        refine wp_mono (induction named.settled) ?_
        rintro _ next ⟨frees, later⟩
        exact ⟨(counted.trans named).trans frees, fun other => (later other).trans (cwds other)⟩

theorem forkFiles_spec
    {child : Slot} (unused : (fs.proc child).cwd = none) :
    wp (forkFiles pid child) (fun _ next => fs.Frees next) fail fs := by
  simp only [forkFiles, wp_bind, wp_get]
  refine wp_mono (settled.dupAll_spec others child _) ?_
  rintro _ fs ⟨frees, cwds⟩
  rw [← cwds child] at unused
  cases cwd : (fs.proc pid).cwd with
  | none => exact others _ (by decide) (by decide)
  | some inum =>
    have held := Fs.cwd_mem_holders cwd
    simp only [wp_bind]
    refine wp_mono (frees.settled.during.idup_spec
      (Multiset.mem_add.mpr (.inl held))) fun _ middle later => ?_
    simp only [setCwd, wp_modify, wp_pure]
    rw [later.proc]
    have total :=
      fs.holders_setProc child { fs.proc child with cwd := some inum }
    have holders : (fs.setProc child { fs.proc child with cwd := some inum }).holders =
          inum ::ₘ fs.holders := by
      rw [← Multiset.singleton_add, add_comm]
      simpa [unused] using total
    have during := (later.hold (later.kept inum held) (fun _ => by rintro ⟨⟩)).setProc child
        { fs.proc child with cwd := some inum }
    rw [← holders] at during
    refine frees.trans ⟨during.settled frees.settled.files ?_, ?_, ?_⟩
    · rw [holders]
      exact frees.settled.intact.hold (frees.settled.intact.held inum held)
    · exact later.ninodes
    · rw [during.inode]
      exact .refl

end

end Settled

end Xv6Lottery
