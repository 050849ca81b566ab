import Xv6Lottery.Fs.Create
import Xv6Lottery.Fs.Files

namespace Xv6Lottery

open Outcome.Prog During LinkGraph Function

/-! What a completed call does to the links. -/

/-- The path at which a call makes an inode, and its kind. -/
def FileCall.makes : FileCall → Option (Path × Kind)
  | .mkdir path => some (path, .dir)
  | .mknod path _ _ => some (path, .leaf)
  | .open path omode =>
    if omode &&& oCreate ≠ 0 then some (path, .leaf) else none
  | _ => none

inductive Effect (fs : Fs) (pid : Slot) : FileCall → DirGraph Inum → Prop
  | frees : fs.inode.graph.Dropped later → Effect fs pid call later
  | attach : call.makes = some (path, kind) → fs.parent pid path = some (dp, name) →
      fs.inode.graph.kind dp = .dir → fs.inode.graph.kind ip = .free →
      ip < fs.ninodes → kind ≠ .free → Effect fs pid call (fs.inode.graph.attach dp ip kind)
  | link : fs.parent pid new = some (dp, name) →
      fs.inode.graph.kind dp = .dir → fs.inode.graph.kind ip = .leaf →
      Effect fs pid (.link old new) (fs.inode.graph.link dp ip)
  | unlink : fs.parent pid path = some (dp, name) →
      scanEntries name (fs.inode dp).entries 0 = some (index, ip) → ip ∈ fs.inode.graph.links dp →
      (fs.inode.graph.kind ip = .dir → fs.inode.graph.links ip = 0) →
      Effect fs pid (.unlink path) (fs.inode.graph.unlink fs.holders dp ip)

def Fs.Room (fs : Fs) (pid : Slot) : FileCall → Prop
  | .mkdir path => ∀ dp name, fs.parent pid path = some (dp, name) →
      (fs.inode dp).nlink.toNat + 1 < 2 ^ 15
  | .link old _ => ∀ ip, fs.target pid old = some ip → (fs.inode ip).nlink.toNat + 1 < 2 ^ 15
  | _ => True

structure Fs.Completes (fs : Fs) (pid : Slot) (call : FileCall) (next : Fs) : Prop where
  settled : Settled next
  ninodes : next.ninodes = fs.ninodes
  effect : Effect fs pid call next.inode.graph

theorem Fs.Frees.completes {fs next : Fs} (frees : fs.Frees next)
    (pid : Slot) (call : FileCall) : fs.Completes pid call next where
  settled := frees.settled
  ninodes := frees.ninodes
  effect := .frees frees.dropped

namespace Settled

variable {fs : Fs} {pid : Slot} {fail : Panic → Prop} (settled : Settled fs)

include settled

theorem frees_same (during : During fs fs.inode fs.holders 0 ∅ next) : fs.Frees next := by
  refine ⟨during.settled settled.files settled.intact, during.ninodes, ?_⟩
  rw [during.inode]
  exact .refl

variable (others : ∀ reason, reason ≠ .ilockNoType → reason ≠ .unlinkNlink → fail reason)
  (dangling : Dangling fs.inode → fail .ilockNoType)

include others dangling

theorem sysChdir_spec (path : Path) :
    wp (sysChdir pid path) (fun _ next => fs.Frees next) fail fs := by
  simp only [sysChdir, wp_bind, wp_ite, wp_pure]
  refine ⟨fun _ => ?_, fun _ => settled.frees_refl⟩
  refine wp_mono (settled.namei_spec others dangling (fun _ => rfl)
    (fun _ => rfl) settled.intact.retained settled.during path) ?_
  rintro found middle ⟨_, later⟩
  cases found with
  | none => exact settled.frees_same later
  | some ip =>
    obtain ⟨later, typed⟩ := later
    simp only [wp_bind]
    refine wp_mono (later.ilock_spec others (Multiset.mem_cons_self ..) typed) ?_
    rintro _ middle ⟨locked, used⟩
    refine wp_mono locked.readInode_spec ?_
    rintro _ middle ⟨rfl, locked⟩
    simp only [wp_ite, wp_bind, wp_pure]
    refine ⟨fun _ => ?_, fun _ => ?_⟩
    · refine wp_mono (locked.iunlockput_quiet others
        settled.intact.retained) fun _ next unlocked => ?_
      rw [unlock_one] at unlocked
      exact settled.frees_same unlocked
    · refine wp_mono (locked.iunlock_spec others) ?_
      rintro _ middle ⟨unlocked, valid⟩
      rw [unlock_one] at unlocked
      rw [locked.valid ip (Set.mem_insert ..)] at valid
      have held := unlocked.hold (fun _ => valid) fun _ => by rintro ⟨⟩
      simp only [putCwd, wp_bind, wp_get]
      rw [unlocked.proc]
      cases cwd : (fs.proc pid).cwd with
      | none => exact others _ (by decide) (by decide)
      | some old =>
        obtain ⟨rest, holders⟩ :=
          Multiset.exists_cons_of_mem (Fs.cwd_mem_holders cwd)
        rw [holders, Multiset.cons_swap] at held
        refine wp_mono (held.iput_held settled.intact.root_nlink
          (Set.notMem_empty old)) fun _ next later => ?_
        simp only [setCwd, wp_modify]
        rw [later.proc]
        have after : (fs.setProc pid { fs.proc pid with cwd := some ip }).holders =
              ip ::ₘ rest := by
          have total := fs.holders_setProc pid { fs.proc pid with cwd := some ip }
          rw [cwd, holders] at total
          refine add_right_cancel (total.trans ?_)
          change old ::ₘ rest + {ip} = ip ::ₘ rest + {old}
          rw [← Multiset.singleton_add, ← Multiset.singleton_add]
          ac_rfl
        have oldUsed := settled.intact.held old (Fs.cwd_mem_holders cwd)
        have intact := settled.intact.hold used
        rw [holders, Multiset.cons_swap] at intact
        have during := later.setProc pid { fs.proc pid with cwd := some ip }
        rw [add_zero] at during
        rw [← after] at during intact
        refine ⟨during.settled settled.files intact.put, later.ninodes, ?_⟩
        rw [during.inode, Tree.graph_reclaim oldUsed]
        exact DirGraph.Dropped.refl.drop (Tree.kind_used oldUsed) _

/-! sys_open() -/

omit settled others dangling in
theorem filealloc_spec
    (during : During start tree holds pins locks now) : wp filealloc (fun found next =>
      match found with
      | none => During start tree holds pins locks next
      | some f => (start.ftable f).ref = 0 ∧
          During (start.setFile f { start.ftable f with ref := 1 }) tree
            holds pins locks next) fail now := by
  simp only [filealloc, wp_bind, wp_get]
  rw [during.ftable]
  cases search : (List.finRange nfile).find? fun f =>
      (start.ftable f).ref = 0 with
  | none => exact during
  | some f =>
    simp only [wp_bind, wp_modify, wp_pure]
    rw [during.ftable]
    exact ⟨by simpa using List.find?_some search, during.setFile f _⟩

omit settled others dangling in
theorem fdalloc_spec
      (f : Fin nfile)
    (during : During start tree holds pins locks now) : wp (fdalloc pid f) (fun found next =>
      match found with
      | none => During start tree holds pins locks next
      | some _ => ∃ process, process.cwd = (start.proc pid).cwd ∧
          During (start.setProc pid process) tree holds pins locks next)
      fail now := by
  simp only [fdalloc, setOfile, wp_bind, wp_get]
  split
  · exact during
  · simp only [wp_bind, wp_modify, wp_pure]
    rw [during.proc]
    refine ⟨_, ?_, during.setProc pid _⟩
    rfl

omit dangling in
theorem openFile_spec (intact : tree.Intact fs.ninodes fs.holders) (used : (tree ip).type ≠ .free)
    (during : During fs tree fs.holders (ip ::ₘ 0) (insert ip ∅) now) (omode : BitVec 32) :
    wp (openFile pid ip omode) (fun _ next => Settled next ∧ next.inode = tree ∧ next.ninodes =
        fs.ninodes) fail now := by
  -- The ways out on which nothing is opened.
  have refused : ∀ {start middle : Fs},
      During start tree fs.holders (ip ::ₘ 0) (insert ip ∅) middle →
      start.holders = fs.holders → start.ninodes = fs.ninodes →
      (∀ f, (start.ftable f).ref = 0 → (start.ftable f).ip = none) →
      wp (iunlockput ip) (fun _ next => Settled next ∧
        next.inode = tree ∧ next.ninodes = fs.ninodes) fail middle := by
    intro start middle during holders ninodes files
    refine wp_mono (during.iunlockput_quiet others intact.retained) fun _ next unlocked => ?_
    rw [unlock_one, ← holders] at unlocked
    refine ⟨unlocked.settled files ?_, unlocked.inode, unlocked.ninodes.trans ninodes⟩
    rw [holders, ninodes]
    exact intact
  simp only [openFile, wp_bind]
  refine wp_mono during.readInode_spec ?_
  rintro _ middle ⟨rfl, during⟩
  simp only [wp_ite, wp_bind, wp_pure]
  refine ⟨fun _ => refused during rfl rfl settled.files, fun _ => ?_⟩
  refine wp_mono (filealloc_spec during) fun found middle later => ?_
  cases found with
  | none =>
    simp only [wp_bind, wp_pure]
    exact refused later rfl rfl settled.files
  | some f =>
    obtain ⟨unused, during⟩ := later
    have closed := settled.files f unused
    have counted : (fs.setFile f { fs.ftable f with ref := 1 }).holders = fs.holders :=
      Fs.holders_setFile_same rfl
    simp only [wp_bind]
    refine wp_mono (fdalloc_spec f during) fun found middle later => ?_
    cases found with
    | none =>
      simp only [fileclose, wp_bind, wp_get, wp_ite, wp_throw, wp_modify, wp_pure]
      rw [later.ftable, Fs.setFile_self]
      refine ⟨fun _ => others _ (by decide) (by decide), fun _ =>
        ⟨fun several => absurd several (Nat.lt_irrefl 1), fun _ => ?_⟩⟩
      rw [closed]
      simp only [wp_pure]
      refine refused (later.setFile f { ref := 0, ip := none }) ?_ rfl ?_
      · rw [Fs.holders_setFile_same, counted]
        rw [Fs.setFile_self]
        exact closed.symm
      · refine Fs.files_setFile _ ?_ f ?_
        · exact fs.files_setFile settled.files f fun _ => closed
        · exact fun _ => rfl
    | some fd =>
      obtain ⟨process, cwd, during⟩ := later
      let named := (fs.setFile f { fs.ftable f with ref := 1 }).setProc pid process
      let file : File := { named.ftable f with ip := some ip }
      have here : named.ftable f = { fs.ftable f with ref := 1 } :=
        Fs.setFile_self ..
      have holders : (named.setFile f file).holders = ip ::ₘ fs.holders := by
        have total := named.holders_setFile f file
        rw [here] at total
        have before : named.holders = fs.holders :=
          (Fs.holders_setProc_same cwd).trans counted
        rw [before] at total
        rw [← Multiset.singleton_add, add_comm]
        simpa [closed, file] using total
      have files : ∀ other, ((named.setFile f file).ftable other).ref = 0 →
            ((named.setFile f file).ftable other).ip = none := by
        refine named.files_setFile ?_ f ?_
        · exact fs.files_setFile settled.files f fun _ => closed
        · intro zero
          rw [show file.ref = 1 from congrArg File.ref here] at zero
          cases zero
      -- The descriptor is in place; the inode is unlocked.
      have finish : ∀ {middle : Fs}, During (named.setFile f file) tree fs.holders (ip ::ₘ 0)
            (insert ip ∅) middle → wp (iunlock ip) (fun _ next => Settled next ∧
            next.inode = tree ∧ next.ninodes = fs.ninodes) fail
            middle := by
        intro middle during
        refine wp_mono (during.iunlock_spec others) ?_
        rintro _ next ⟨unlocked, valid⟩
        rw [unlock_one] at unlocked
        rw [during.valid ip (Set.mem_insert ..)] at valid
        have held := unlocked.hold (fun _ => valid) fun _ => by rintro ⟨⟩
        rw [← holders] at held
        refine ⟨held.settled files ?_, held.inode, held.ninodes⟩
        rw [holders]
        exact intact.hold used
      simp only [wp_bind, wp_modify, wp_ite, wp_pure]
      rw [during.ftable]
      have opened := during.setFile f file
      refine ⟨fun truncated => ?_, fun _ => finish opened⟩
      refine wp_mono (opened.updateInode_spec fun used => used) fun _ middle later => finish ?_
      have empty := (intact.shaped.each ip).other (by rw [truncated.2]; rintro ⟨⟩)
      have same : ({ tree ip with entries := [] } : Dinode) = tree ip := by rw [← empty]
      rw [same, update_eq_self] at later
      exact later

omit others dangling in
theorem completes (intact : tree.Intact fs.ninodes fs.holders)
    (effect : Effect fs pid call tree.graph) (during : During fs tree fs.holders 0 ∅ next) :
    fs.Completes pid call next := by
  refine ⟨during.settled settled.files intact, during.ninodes, ?_⟩
  rw [during.inode]
  exact effect

omit settled others dangling in
theorem makes_effect (makes : fs.Makes pid path type tree)
    (made : call.makes = some (path, type.kind)) (used : type ≠ .free) :
    Effect fs pid call tree.graph := by
  rcases makes.links with same | ⟨dp, name, ip, parent, isDir, unused, inside, attached⟩
  · rw [same]
    exact .frees .refl
  · rw [attached]
    exact .attach made parent isDir unused inside (FileType.kind_eq_free.not.mpr used)

theorem openInode_spec (path : Path) (omode : BitVec 32) :
    wp (openInode pid path omode) (fun found next => ∃ tree, tree.Intact fs.ninodes fs.holders ∧
        Effect fs pid (.open path omode) tree.graph ∧ fs.Locks tree next found) fail fs := by
  have same : Effect fs pid (.open path omode) fs.inode.graph := .frees .refl
  simp only [openInode, wp_bind, wp_ite]
  refine ⟨fun creates => ?_, fun _ => ?_⟩
  · have used : FileType.file ≠ .free := by decide
    have room : ∀ dp name, fs.parent pid path = some (dp, name) →
        FileType.file = .dir → (fs.inode dp).nlink.toNat + 1 < 2 ^ 15 :=
      fun _ _ _ isDir => by cases isDir
    refine wp_mono (settled.create_spec others dangling used room 0 0) ?_
    rintro found next ⟨tree, makes, later⟩
    exact ⟨tree, makes.intact, makes_effect makes (if_pos creates) used, later⟩
  · refine wp_mono (settled.namei_spec others dangling (fun _ => rfl)
      (fun _ => rfl) settled.intact.retained settled.during path) ?_
    rintro found middle ⟨_, later⟩
    cases found with
    | none => exact ⟨fs.inode, settled.intact, same, later⟩
    | some ip =>
      obtain ⟨later, typed⟩ := later
      simp only [wp_bind]
      refine wp_mono (later.ilock_spec others (Multiset.mem_cons_self ..) typed) ?_
      rintro _ middle ⟨locked, used⟩
      refine wp_mono locked.readInode_spec ?_
      rintro _ middle ⟨rfl, locked⟩
      simp only [wp_ite, wp_bind, wp_pure]
      refine ⟨fun _ => ?_, fun _ => ⟨fs.inode, settled.intact, same, used, locked⟩⟩
      refine wp_mono (locked.iunlockput_quiet others
        settled.intact.retained) fun _ next unlocked => ?_
      rw [unlock_one] at unlocked
      exact ⟨fs.inode, settled.intact, same, unlocked⟩

theorem sysOpen_spec (path : Path) (omode : BitVec 32) :
    wp (sysOpen pid path omode) (fun _ next => fs.Completes pid (.open path omode) next) fail fs
      := by
  simp only [sysOpen, wp_bind, wp_ite, wp_pure]
  refine ⟨fun _ => ?_, fun _ => settled.frees_refl.completes pid _⟩
  refine wp_mono (settled.openInode_spec others dangling path omode) ?_
  rintro found middle ⟨tree, intact, effect, later⟩
  cases found with
  | none => exact settled.completes intact effect later
  | some ip =>
    refine wp_mono (settled.openFile_spec others intact later.1 later.2 omode) ?_
    rintro _ next ⟨after, rfl, ninodes⟩
    exact ⟨after, ninodes, effect⟩

theorem makeNode_spec (type : FileType) (made : call.makes = some (path, type.kind))
    (used : type ≠ .free) (room : ∀ dp name, fs.parent pid path = some (dp, name) → type = .dir →
      (fs.inode dp).nlink.toNat + 1 < 2 ^ 15) (major minor : BitVec 16) :
    wp (makeNode pid path type major minor) (fun _ next => fs.Completes pid call next) fail fs := by
  simp only [makeNode, wp_bind, wp_ite, wp_pure]
  refine ⟨fun _ => ?_, fun _ => settled.frees_refl.completes pid _⟩
  refine wp_mono (settled.create_spec others dangling used room major minor) ?_
  rintro found middle ⟨tree, makes, later⟩
  have effect := makes_effect makes made used
  cases found with
  | none => exact settled.completes makes.intact effect later
  | some ip =>
    simp only [wp_bind, wp_pure]
    refine wp_mono (later.2.iunlockput_quiet others makes.intact.retained) fun _ next unlocked => ?_
    rw [unlock_one] at unlocked
    exact settled.completes makes.intact effect unlocked

/-! sys_link() -/

theorem linkAt_spec
    (type : ∀ inum, (tree inum).type = (fs.inode inum).type)
    (entries : ∀ inum, (tree inum).entries = (fs.inode inum).entries)
    (retained : Retained tree fs.holders)
    (during : During fs tree fs.holders (ip ::ₘ 0) ∅ now) (new : Path) :
    wp (linkAt pid new ip) (fun linked next =>
      match linked with
      | true => ∃ dp name, fs.parent pid new = some (dp, name) ∧ (tree dp).type = .dir ∧
          scanEntries name (tree dp).entries 0 = none ∧ During fs (update tree dp
            { tree dp with
              entries := insertEntry { inum := ip % 2 ^ 16, name := name.take dirsiz }
                (tree dp).entries }) fs.holders (ip ::ₘ 0) ∅ next
      | false => During fs tree fs.holders (ip ::ₘ 0) ∅ next)
      fail now := by
  simp only [linkAt, wp_bind]
  refine wp_mono (settled.nameiparent_spec others dangling type entries retained during new) ?_
  rintro found middle ⟨parent, later⟩
  cases found with
  | none => exact later
  | some hit =>
    obtain ⟨dp, name⟩ := hit
    obtain ⟨later, isDir⟩ := later
    simp only [wp_bind, wp_pure]
    refine wp_mono (later.ilock_spec others (Multiset.mem_cons_self ..)
      fun free => by cases isDir.symm.trans free) ?_
    rintro _ middle ⟨locked, _⟩
    refine wp_mono (locked.dirlink_spec others ip) fun linked middle later => ?_
    cases linked with
    | true =>
      obtain ⟨absent, later⟩ := later
      have kept : Retained (update tree dp
          { tree dp with
            entries := insertEntry { inum := ip % 2 ^ 16, name := name.take dirsiz }
              (tree dp).entries }) fs.holders := by
        intro inum used unlinked
        by_cases same : inum = dp
        · subst same
          rw [update_self] at used unlinked
          exact retained inum used unlinked
        · rw [update_of_ne same] at used unlinked
          exact retained inum used unlinked
      refine wp_mono (later.iunlockput_quiet others kept) fun _ next unlocked => ?_
      rw [unlock_one] at unlocked
      exact ⟨dp, name, parent, isDir, absent, unlocked⟩
    | false =>
      refine wp_mono (later.iunlockput_quiet others retained) fun _ next unlocked => ?_
      rw [unlock_one] at unlocked
      exact unlocked

theorem sysLink_spec {old new : Path}
    (room : ∀ ip, fs.target pid old = some ip → (fs.inode ip).nlink.toNat + 1 < 2 ^ 15) :
    wp (sysLink pid old new) (fun _ next => fs.Completes pid (.link old new) next) fail fs := by
  have retained := settled.intact.retained
  have same : ∀ {next : Fs}, During fs fs.inode fs.holders 0 ∅ next →
      fs.Completes pid (.link old new) next :=
    fun during => (settled.frees_same during).completes pid _
  simp only [sysLink, wp_bind, wp_ite, wp_pure]
  refine ⟨fun _ => ?_, fun _ => settled.frees_refl.completes pid _⟩
  refine wp_mono (settled.namei_spec others dangling (fun _ => rfl)
    (fun _ => rfl) retained settled.during old) ?_
  rintro found middle ⟨target, later⟩
  cases found with
  | none => exact same later
  | some ip =>
    obtain ⟨later, typed⟩ := later
    simp only [wp_bind]
    refine wp_mono (later.ilock_spec others (Multiset.mem_cons_self ..) typed) ?_
    rintro _ middle ⟨locked, used⟩
    refine wp_mono locked.readInode_spec ?_
    rintro _ middle ⟨rfl, locked⟩
    simp only [wp_ite, wp_bind, wp_pure]
    refine ⟨fun _ => ?_, fun notDir => ?_⟩
    · refine wp_mono (locked.iunlockput_quiet others retained) fun _ next unlocked => ?_
      rw [unlock_one] at unlocked
      exact same unlocked
    · refine wp_mono (locked.updateInode_spec fun used => used) fun _ middle raised => ?_
      refine wp_mono (raised.iunlock_spec others) ?_
      rintro _ middle ⟨unlocked, _⟩
      rw [unlock_one] at unlocked
      refine wp_mono (settled.linkAt_spec others dangling ?_ ?_ ?_ unlocked
        new) fun linked middle later => ?_
      · intro inum
        by_cases here : inum = ip
        · rw [here, update_self]
        · rw [update_of_ne here]
      · intro inum
        by_cases here : inum = ip
        · rw [here, update_self]
        · rw [update_of_ne here]
      · intro inum inUse unlinked
        by_cases here : inum = ip
        · subst here
          rw [update_self] at unlinked
          exact absurd unlinked (settled.intact.succ_ne_zero used)
        · rw [update_of_ne here] at inUse unlinked
          exact retained inum inUse unlinked
      cases linked with
      | true =>
        obtain ⟨dp, name, parent, isDir, absent, later⟩ := later
        have differs : dp ≠ ip := by
          rintro rfl
          rw [update_self] at isDir
          exact notDir isDir
        rw [update_of_ne differs] at isDir absent later
        rw [settled.intact.mod_ninodes (settled.intact.lt_ninodes used)] at later
        have intact := settled.intact.link isDir absent used notDir (room ip target)
        have graph := settled.intact.graph_link isDir absent used notDir
        have leaf : fs.inode.graph.kind ip = .leaf :=
          Tree.kind_leaf used notDir
        refine ⟨fun _ => ?_, fun failed => absurd rfl failed⟩
        refine wp_mono (later.iput_quiet intact.retained
          (Set.notMem_empty ip)) fun _ next done => ?_
        refine settled.completes intact ?_ done
        rw [graph]
        exact .link parent (Tree.kind_dir isDir) leaf
      | false =>
        refine ⟨by rintro ⟨⟩, fun _ => ?_⟩
        refine wp_mono (later.ilock_spec others (Multiset.mem_cons_self ..) fun free => ?_) ?_
        · rw [update_self] at free
          exact absurd free used
        rintro _ middle ⟨locked, _⟩
        refine wp_mono (locked.updateInode_spec fun used => used) fun _ middle lowered => ?_
        have restored : ({ fs.inode ip with
            nlink := (fs.inode ip).nlink + 1 - 1 } : Dinode) = fs.inode ip := by
          rw [BitVec.add_sub_cancel]
        rw [update_self, update_idem] at lowered
        dsimp only at lowered
        rw [restored, update_eq_self] at lowered
        refine wp_mono (lowered.iunlockput_quiet others retained) fun _ next unlocked => ?_
        rw [unlock_one] at unlocked
        exact same unlocked

/-! sys_unlink() -/

omit settled others dangling in
theorem reclaim_update {tree : Tree} (differs : dp ≠ ip) (refs : Multiset Inum)
    (change : Dinode → Dinode) :
    update (tree.reclaim refs dp) ip (change (tree.reclaim refs dp ip)) =
      Tree.reclaim (update tree ip (change (tree ip))) refs dp := by
  unfold Tree.reclaim
  rw [update_of_ne differs]
  split
  · rw [update_of_ne differs.symm, update_comm differs]
  · rfl

omit dangling in
theorem unlinkEntry_spec (parent : fs.parent pid path = some (dp, name))
    (isDir : (fs.inode dp).type = .dir)
    (found : scanEntries name (fs.inode dp).entries 0 = some (index, ip))
    (notDot : namecmp name dot ≠ true) (notDotdot : namecmp name dotdot ≠ true)
    (during : During fs fs.inode fs.holders (ip ::ₘ dp ::ₘ 0) (insert dp ∅) now) :
    wp (unlinkEntry dp index ip) (fun _ next => fs.Completes pid (.unlink path) next) fail now := by
  have retained := settled.intact.retained
  have used := settled.intact.target_used isDir found notDot notDotdot
  have dirUsed : (fs.inode dp).type ≠ .free := by rw [isDir]; nofun
  simp only [unlinkEntry, wp_bind]
  refine wp_mono (during.ilock_spec others (Multiset.mem_cons_self ..)
    fun free => absurd free used) ?_
  rintro _ middle ⟨locked, _⟩
  refine wp_mono locked.readInode_spec ?_
  rintro _ middle ⟨rfl, locked⟩
  simp only [wp_ite, wp_bind, wp_throw, wp_pure]
  have counted := settled.intact.target_counted isDir found notDot notDotdot
  refine ⟨fun none => absurd none (by omega),
    fun _ => ⟨fun _ => ?_, fun unlinks => ?_⟩⟩
  · refine wp_mono (locked.iunlockput_quiet others retained) fun _ middle unlocked => ?_
    refine wp_mono (unlocked.iunlockput_quiet others retained) fun _ next unlocked => ?_
    rw [unlock_both] at unlocked
    exact (settled.frees_same unlocked).completes pid _
  · have empty : (fs.inode ip).type = .dir → inums ((fs.inode ip).entries.drop 2) = 0 := by
      intro dirTarget
      refine inums_eq_zero fun entry member => ?_
      by_contra inUse
      refine unlinks ⟨dirTarget, ?_⟩
      rw [isdirempty, List.all_eq_false]
      exact ⟨entry, member, by simpa using inUse⟩
    have differs := settled.intact.target_ne isDir found notDot notDotdot empty
    have intact := settled.intact.detach isDir found notDot notDotdot empty
    have graph := settled.intact.graph_detach isDir found notDot notDotdot empty
    obtain ⟨_, inside, _, _⟩ := (settled.intact.shaped.each dp).clear isDir
      found notDot notDotdot rfl
    have refs : fs.holders + ip ::ₘ 0 = ip ::ₘ fs.holders := by
      rw [Multiset.add_cons, add_zero]
    refine wp_mono (locked.writei_inside _ inside) ?_
    rintro _ middle ⟨rfl, cleared⟩
    -- The entry is cleared and the count of the directory is right.
    have finish : ∀ {middle : Fs}, During fs (update fs.inode dp
        { fs.inode dp with
          entries := (fs.inode dp).entries.set index { inum := 0, name := [] }
          nlink := if (fs.inode ip).type = .dir then (fs.inode dp).nlink - 1
            else (fs.inode dp).nlink }) fs.holders (ip ::ₘ dp ::ₘ 0)
        (insert ip (insert dp ∅)) middle →
        wp (iunlockput dp) (fun _ middle =>
          wp (updateInode ip fun dinode =>
              { dinode with nlink := dinode.nlink - 1 }) (fun _ middle =>
            wp (iunlockput ip) (fun _ next =>
              fs.Completes pid (.unlink path) next) fail middle) fail
            middle) fail middle := by
      intro middle during
      rw [Multiset.cons_swap] at during
      refine wp_mono (during.iunlockput_spec others
        (.inr (Set.mem_insert ..))) fun _ middle put => ?_
      refine wp_mono (put.updateInode_spec fun used => used) fun _ middle lowered => ?_
      rw [reclaim_update differs _ fun dinode =>
          { dinode with nlink := dinode.nlink - 1 },
        update_of_ne differs.symm, refs] at lowered
      refine wp_mono (lowered.iunlockput_spec others
        ⟨Set.mem_insert .., differs.symm⟩) fun _ next done => ?_
      rw [Set.insert_comm, unlock_both, add_zero] at done
      have first := intact.held dp (Multiset.mem_cons_self ..)
      have second := intact.put.held ip (Multiset.mem_cons_self ..)
      refine settled.completes intact.put.put ?_ done
      rw [Tree.graph_reclaim second, Tree.graph_reclaim first, graph]
      exact .unlink parent found (settled.intact.mem_links isDir found notDot notDotdot)
        fun dirTarget => empty (FileType.kind_eq_dir.mp dirTarget)
    refine ⟨fun _ => ⟨fun dirTarget => ?_, fun notDir => ?_⟩, fun failed => absurd rfl failed⟩
    · refine wp_mono (cleared.updateInode_spec fun used => used) fun _ middle lowered => finish ?_
      rw [update_self, update_idem] at lowered
      rw [if_pos dirTarget]
      exact lowered
    · refine finish ?_
      rw [if_neg notDir]
      exact cleared

theorem sysUnlink_spec (path : Path) :
    wp (sysUnlink pid path) (fun _ next => fs.Completes pid (.unlink path) next) fail fs := by
  have retained := settled.intact.retained
  have same : ∀ {next : Fs}, During fs fs.inode fs.holders 0 ∅ next →
      fs.Completes pid (.unlink path) next :=
    fun during => (settled.frees_same during).completes pid _
  simp only [sysUnlink, wp_bind, wp_ite, wp_pure]
  refine ⟨fun _ => ?_, fun _ => settled.frees_refl.completes pid _⟩
  refine wp_mono (settled.nameiparent_spec others dangling (fun _ => rfl)
    (fun _ => rfl) retained settled.during path) ?_
  rintro found middle ⟨parent, later⟩
  cases found with
  | none => exact same later
  | some hit =>
    obtain ⟨dp, name⟩ := hit
    obtain ⟨later, isDir⟩ := later
    simp only [wp_bind]
    refine wp_mono (later.ilock_spec others (Multiset.mem_cons_self ..)
      fun free => by cases isDir.symm.trans free) ?_
    rintro _ middle ⟨locked, _⟩
    simp only [wp_bind, wp_ite, wp_pure]
    refine ⟨fun _ => ?_, fun plain => ?_⟩
    · refine wp_mono (locked.iunlockput_quiet others retained) fun _ next unlocked => ?_
      rw [unlock_one] at unlocked
      exact same unlocked
    · rw [not_or] at plain
      refine wp_mono (locked.dirlookup_spec others) ?_
      rintro found middle ⟨_, scanned, looked⟩
      cases found with
      | none =>
        simp only [wp_bind, wp_pure]
        refine wp_mono (looked.iunlockput_quiet others retained) fun _ next unlocked => ?_
        rw [unlock_one] at unlocked
        exact same unlocked
      | some hit =>
        exact settled.unlinkEntry_spec others parent isDir scanned plain.1 plain.2 looked.1

/-- A call that returns leaves a settled state; it stops at "ilock: no type"
only where an entry dangles. -/
theorem exec_spec {call : FileCall} (room : fs.Room pid call)
    (unused : ∀ child, call = .fork child → (fs.proc child).cwd = none) :
    wp (call.exec pid) (fun _ next => fs.Completes pid call next) fail fs := by
  have frees : ∀ {prog : FsM Int}, wp prog (fun _ next => fs.Frees next) fail fs →
        wp prog (fun _ next => fs.Completes pid call next) fail fs :=
    fun holds => wp_mono holds fun _ _ later => later.completes pid call
  cases call with
  | mkdir path =>
    exact settled.makeNode_spec others dangling .dir rfl nofun
      (fun dp name parent _ => room dp name parent) 0 0
  | mknod path major minor =>
    exact settled.makeNode_spec others dangling .device rfl nofun
      (fun _ _ _ isDir => nomatch isDir) _ _
  | «open» path omode => exact settled.sysOpen_spec others dangling path omode
  | link old new => exact settled.sysLink_spec others dangling room
  | unlink path => exact settled.sysUnlink_spec others dangling path
  | chdir path => exact frees (settled.sysChdir_spec others dangling path)
  | close fd => exact frees (settled.sysClose_spec others fd)
  | exit => exact frees (settled.exitFiles_spec others)
  | fork child =>
    exact frees (settled.forkFiles_spec others (unused child rfl))

end Settled

/-! Steps. -/

theorem Settled.supply (settled : Settled fs) (space : List Bool) :
    Settled { fs with space := space } where
  intact := settled.intact
  files := settled.files
  during := { settled.during with }

theorem Fs.Step.completes (step : fs.Step label next) (settled : Settled fs)
    (room : fs.Room label.pid label.call) : fs.Completes label.pid label.call next := by
  obtain ⟨pid, call, space⟩ := label
  obtain ⟨value, returned⟩ := step.returns
  have holds : wp (call.exec pid) _ (fun _ => True) { fs with space := space } :=
    (settled.supply space).exec_spec (fun _ _ _ => trivial) (fun _ => trivial) room step.unused
  obtain ⟨after, ninodes, effect⟩ := wp_run holds returned
  refine ⟨after, ninodes, ?_⟩
  generalize next.inode.graph = graph at effect
  cases effect with
  | frees dropped => exact .frees dropped
  | attach made parent isDir unused inside used =>
    exact .attach made parent isDir unused inside used
  | link parent isDir leaf => exact .link parent isDir leaf
  | unlink parent found link empty => exact .unlink parent found link empty

theorem Settled.no_panic (settled : Settled fs)
    (sound : ¬Dangling fs.inode) {label : CallLabel} (room : fs.Room label.pid label.call)
    (unused : ∀ child, label.call = .fork child → (fs.proc child).cwd = none) :
    (label.call.exec label.pid).run { fs with space := label.space } ≠ .error .ilockNoType := by
  intro failed
  have holds : wp (label.call.exec label.pid) _ (· ≠ .ilockNoType)
      { fs with space := label.space } :=
    (settled.supply label.space).exec_spec (fun _ other _ => other)
      (fun dangling => absurd dangling sound) room unused
  exact wp_error holds failed rfl

end Xv6Lottery
