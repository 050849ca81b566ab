import Xv6Lottery.Fs.Intact

namespace Xv6Lottery

open Outcome.Prog During Function

/-! The state between two calls. -/

@[irreducible] def currentDirs (proc : Slot → FsProc) : Multiset Inum :=
  ∑ pid ∈ Finset.univ, ((proc pid).cwd.toList : Multiset Inum)

@[irreducible] def openInodes (ftable : Fin nfile → File) : Multiset Inum :=
  ∑ f ∈ Finset.univ, ((ftable f).ip.toList : Multiset Inum)

/-- The references that current directories and open files hold. -/
def Fs.holders (fs : Fs) : Multiset Inum :=
  currentDirs fs.proc + openInodes fs.ftable

structure Settled (fs : Fs) : Prop where
  intact : fs.inode.Intact fs.ninodes fs.holders
  files : ∀ f, (fs.ftable f).ref = 0 → (fs.ftable f).ip = none
  during : During fs fs.inode fs.holders 0 ∅ fs

theorem Fs.setProc_self (fs : Fs) (pid : Slot) (process : FsProc) :
    (fs.setProc pid process).proc pid = process := update_self ..

theorem Fs.setProc_of_ne (fs : Fs) (differs : other ≠ pid) (process : FsProc) :
    (fs.setProc pid process).proc other = fs.proc other :=
  update_of_ne differs ..

theorem Fs.setFile_self (fs : Fs) (f : Fin nfile) (file : File) :
    (fs.setFile f file).ftable f = file := update_self ..

theorem Fs.setFile_of_ne (fs : Fs) (differs : other ≠ f) (file : File) :
    (fs.setFile f file).ftable other = fs.ftable other :=
  update_of_ne differs ..

theorem Fs.files_setFile (fs : Fs) (files : ∀ f, (fs.ftable f).ref = 0 → (fs.ftable f).ip = none)
    (f : Fin nfile) (unused : file.ref = 0 → file.ip = none) (other : Fin nfile)
    (free : ((fs.setFile f file).ftable other).ref = 0) :
    ((fs.setFile f file).ftable other).ip = none := by
  by_cases same : other = f
  · subst same
    rw [fs.setFile_self] at free ⊢
    exact unused free
  · rw [fs.setFile_of_ne same] at free ⊢
    exact files other free

theorem Fs.holders_setProc (fs : Fs) (pid : Slot) (process : FsProc) :
    (fs.setProc pid process).holders + (fs.proc pid).cwd.toList =
      fs.holders + process.cwd.toList := by
  have total : currentDirs (update fs.proc pid process) + (fs.proc pid).cwd.toList =
        currentDirs fs.proc + process.cwd.toList := by
    unfold currentDirs
    exact Tally.sum_update Finset.univ
      (fun process : FsProc => (process.cwd.toList : Multiset Inum)) fs.proc
      (Finset.mem_univ pid) process
  unfold holders setProc
  rw [add_right_comm, total, add_right_comm]

theorem Fs.holders_setFile (fs : Fs) (f : Fin nfile) (file : File) :
    (fs.setFile f file).holders + (fs.ftable f).ip.toList = fs.holders + file.ip.toList := by
  have total : openInodes (update fs.ftable f file) +
      (fs.ftable f).ip.toList = openInodes fs.ftable + file.ip.toList := by
    unfold openInodes
    exact Tally.sum_update Finset.univ
      (fun file : File => (file.ip.toList : Multiset Inum)) fs.ftable (Finset.mem_univ f) file
  unfold holders setFile
  rw [add_assoc, total, add_assoc]

theorem Fs.holders_setProc_same {fs : Fs} (cwd : process.cwd = (fs.proc pid).cwd) :
    (fs.setProc pid process).holders = fs.holders := by
  have total := fs.holders_setProc pid process
  rw [cwd] at total
  exact add_right_cancel total

theorem Fs.holders_setFile_same {fs : Fs} (ip : file.ip = (fs.ftable f).ip) :
    (fs.setFile f file).holders = fs.holders := by
  have total := fs.holders_setFile f file
  rw [ip] at total
  exact add_right_cancel total

theorem Fs.holders_congr {first second : Fs} (proc : first.proc = second.proc)
    (ftable : first.ftable = second.ftable) : first.holders = second.holders := by
  unfold holders
  rw [proc, ftable]

theorem Fs.cwd_mem_holders {fs : Fs} (cwd : (fs.proc pid).cwd = some inum) : inum ∈ fs.holders := by
  unfold holders currentDirs
  rw [Multiset.mem_add, Multiset.mem_sum]
  refine .inl ⟨pid, ?_, ?_⟩
  · exact Finset.mem_univ pid
  · simp [cwd]

namespace During

variable {start fs : Fs} {tree : Tree} {holds pins : Multiset Inum}
  {locks : Set Inum} {inum : Inum} {fail : Panic → Prop}
  (during : During start tree holds pins locks fs)

include during

theorem setProc (pid : Slot) (process : FsProc) :
    During (start.setProc pid process) tree holds pins locks (fs.setProc pid process) :=
  { during with
    proc := by
      unfold Fs.setProc
      dsimp only
      rw [during.proc] }

theorem setFile (f : Fin nfile) (file : File) :
    During (start.setFile f file) tree holds pins locks (fs.setFile f file) :=
  { during with
    ftable := by
      unfold Fs.setFile
      dsimp only
      rw [during.ftable] }

omit during in
theorem unhold (during : During start tree (inum ::ₘ holds) pins locks fs) :
    During start tree holds (inum ::ₘ pins) locks fs := by
  have same : holds + inum ::ₘ pins = inum ::ₘ holds + pins := by
    rw [Multiset.add_cons, Multiset.cons_add]
  exact { during with
    ref := by rw [same]; exact during.ref
    live := by rw [same]; exact during.live
    kept := fun other member =>
      during.kept other (Multiset.mem_cons_of_mem member)
    pinned := fun other member =>
      Multiset.mem_cons_of_mem (during.pinned other member) }

omit during in
theorem hold (during : During start tree holds (inum ::ₘ pins) locks fs)
    (valid : inum ≠ rootino → (fs.itable inum).valid = true)
    (pinned : ∀ other ∈ locks, other ∈ pins) :
    During start tree (inum ::ₘ holds) pins locks fs := by
  have same : inum ::ₘ holds + pins = holds + inum ::ₘ pins := by
    rw [Multiset.add_cons, Multiset.cons_add]
  exact { during with
    ref := by rw [same]; exact during.ref
    live := by rw [same]; exact during.live
    kept := by
      intro other member notRoot
      rcases Multiset.mem_cons.mp member with rfl | old
      · exact valid notRoot
      · exact during.kept other old notRoot
    pinned := pinned }

omit during in
theorem iput_held (during : During start tree (inum ::ₘ holds) pins locks fs)
    (root : (tree rootino).nlink ≠ 0) (unlocked : inum ∉ locks) :
    wp (iput inum) (fun _ next => During start (tree.reclaim (holds + pins) inum) holds pins locks
        next) fail fs := by
  refine during.unhold.iput_spec unlocked fun _ unlinked => ?_
  refine during.kept inum (Multiset.mem_cons_self ..) ?_
  rintro rfl
  exact root unlinked

omit during in
theorem settled {next : Fs} (during : During start tree start.holders 0 ∅ next)
    (files : ∀ f, (start.ftable f).ref = 0 → (start.ftable f).ip = none)
    (intact : tree.Intact start.ninodes start.holders) : Settled next := by
  have holders := Fs.holders_congr during.proc during.ftable
  refine ⟨?_, ?_, ?_⟩
  · rw [during.inode, during.ninodes, holders]
    exact intact
  · rw [during.ftable]
    exact files
  · rw [during.inode, holders]
    exact during.rebase

end During

/-- In the course of a call: with no inode, or with one that is locked. -/
def Fs.Locks (fs : Fs) (tree : Tree) (next : Fs) : Option Inum → Prop
  | none => During fs tree fs.holders 0 ∅ next
  | some ip => (tree ip).type ≠ .free ∧ During fs tree fs.holders (ip ::ₘ 0) (insert ip ∅) next

/-! Lookups, also in the course of a call that has changed no entry. -/

namespace Settled

variable {fs now : Fs} {tree : Tree} {pins : Multiset Inum} {pid : Slot}
  {fail : Panic → Prop} (settled : Settled fs) (others : ∀ reason, reason ≠ .ilockNoType →
    reason ≠ .unlinkNlink → fail reason) (dangling : Dangling fs.inode → fail .ilockNoType)
  (type : ∀ inum, (tree inum).type = (fs.inode inum).type)
  (entries : ∀ inum, (tree inum).entries = (fs.inode inum).entries)
  (retained : Retained tree fs.holders) (during : During fs tree fs.holders pins ∅ now)

include settled others dangling type entries retained during

theorem namex_spec (nameiparent : Bool) (path : Path) :
    wp (namex pid path nameiparent) (fun found next =>
      ((fs.origin pid path).bind fun ip =>
        fs.inode.resolve nameiparent path.length ip path []) = found ∧
      match found with
      | none => During fs tree fs.holders pins ∅ next
      | some (inum, _) => During fs tree fs.holders (inum ::ₘ pins) ∅ next ∧
          ((tree inum).type = .free → fail .ilockNoType) ∧
          (nameiparent = true → (tree inum).type = .dir)) fail now := by
  have same : (fun ip => tree.resolve nameiparent path.length ip path []) =
      fun ip => fs.inode.resolve nameiparent path.length ip path [] := by
    funext ip
    exact Tree.resolve_congr type entries ..
  rw [← same]
  refine during.namex_spec others retained ?_ nameiparent path ?_ ?_
  · rintro ⟨dp, entry, isDir, member, used, free⟩
    rw [type] at isDir free
    rw [entries] at member
    exact dangling ⟨dp, entry, isDir, member, used, free⟩
  · rw [type]
    exact settled.intact.root_used
  · intro cwd current
    have held := Fs.cwd_mem_holders current
    rw [type]
    exact ⟨held, settled.intact.held cwd held⟩

theorem namei_spec (path : Path) :
    wp (namei pid path) (fun found next => fs.target pid path = found ∧ match found with
      | none => During fs tree fs.holders pins ∅ next
      | some inum => During fs tree fs.holders (inum ::ₘ pins) ∅ next ∧
          ((tree inum).type = .free → fail .ilockNoType)) fail now := by
  simp only [namei, wp_bind, wp_pure]
  refine wp_mono (settled.namex_spec others dangling type entries retained during false path) ?_
  rintro found next ⟨resolved, later⟩
  refine ⟨?_, ?_⟩
  · rw [← resolved, Fs.target, Option.map_bind]
    rfl
  · cases found with
    | none => exact later
    | some hit => exact ⟨later.1, later.2.1⟩

theorem nameiparent_spec (path : Path) : wp (nameiparent pid path) (fun found next =>
      fs.parent pid path = found ∧
      match found with
      | none => During fs tree fs.holders pins ∅ next
      | some (inum, _) => During fs tree fs.holders (inum ::ₘ pins) ∅ next ∧
          (tree inum).type = .dir) fail now := by
  refine wp_mono (settled.namex_spec others dangling type entries retained during true path) ?_
  rintro found next ⟨resolved, later⟩
  refine ⟨resolved, ?_⟩
  cases found with
  | none => exact later
  | some hit => exact ⟨later.1, later.2.2 rfl⟩

end Settled

end Xv6Lottery
