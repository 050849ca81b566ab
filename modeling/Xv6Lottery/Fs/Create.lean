import Xv6Lottery.Fs.Settled

namespace Xv6Lottery

open Outcome.Prog Function

namespace During

variable {start fs : Fs} {tree : Tree} {holds pins : Multiset Inum}
  {locks : Set Inum} {fail : Panic → Prop} (others : ∀ reason, reason ≠ .ilockNoType →
    reason ≠ .unlinkNlink → fail reason)

omit others in
theorem lt_of_range (positive : 1 ≤ low) (inside : low < 1 + (high - 1)) : low < high := by
  omega

include others

theorem ialloc_spec (during : During start tree holds pins locks fs) (type : FileType) :
    wp (ialloc type) (fun found next =>
      match found with
      | none => During start tree holds pins locks next
      | some ip => (tree ip).type = .free ∧ ip ≠ 0 ∧ ip < start.ninodes ∧
          During start (update tree ip
            { type := type, major := 0, minor := 0, nlink := 0,
              entries := [] }) holds (ip ::ₘ pins) locks next) fail fs := by
  simp only [ialloc, wp_bind, wp_get]
  rw [during.ninodes, during.inode]
  cases search : (List.range' 1 (start.ninodes - 1)).find? fun inum =>
      (tree inum).type = .free with
  | none => exact during
  | some ip =>
    have unused : (tree ip).type = .free := by
      simpa using List.find?_some search
    have inside := List.mem_range'_1.mp (List.mem_of_find?_eq_some search)
    have top : ip ≠ 0 := Nat.ne_of_gt inside.1
    have bound : ip < start.ninodes :=
      lt_of_range inside.1 inside.2
    simp only [wp_bind, wp_pure]
    refine wp_mono (during.updateInode_spec fun used => absurd unused used) fun _ middle made => ?_
    refine wp_mono (made.iget_spec others) fun _ next later => ?_
    exact ⟨unused, top, bound, later.1⟩

def dirEntries (dp ip : Inum) : List Dirent :=
  [{ inum := ip % 2 ^ 16, name := dot }, { inum := dp % 2 ^ 16, name := dotdot }]

variable {dp ip : Inum} {name : Name} {dinode : Dinode}

theorem dirlink_fresh (during : During start (update tree ip dinode) holds pins locks
      fs) (entry : Name) (target : Inum) : wp (dirlink ip entry target) (fun linked next =>
      match linked with
      | true => During start (update tree ip
          { dinode with
            entries := insertEntry { inum := target % 2 ^ 16, name := entry.take dirsiz }
              dinode.entries }) holds pins locks next
      | false => During start (update tree ip dinode) holds pins locks next) fail fs := by
  refine wp_mono (during.dirlink_spec others target) ?_
  intro linked next later
  cases linked with
  | true =>
    rw [update_self, update_idem] at later
    exact later.2
  | false => exact later

theorem dirlink_parent (differs : dp ≠ ip)
    (during : During start (update tree ip dinode) holds pins locks fs) :
    wp (dirlink dp name ip) (fun linked next =>
      match linked with
      | true => scanEntries name (tree dp).entries 0 = none ∧
          During start (update (update tree ip dinode) dp
            { tree dp with
              entries := insertEntry { inum := ip % 2 ^ 16, name := name.take dirsiz }
                (tree dp).entries }) holds pins locks next
      | false => During start (update tree ip dinode) holds pins locks next) fail fs := by
  have same : update tree ip dinode dp = tree dp :=
    update_of_ne differs ..
  refine wp_mono (during.dirlink_spec others ip) ?_
  intro linked next later
  cases linked with
  | true =>
    rw [same] at later
    exact later
  | false => exact later

theorem createEntries_spec (differs : dp ≠ ip) (top : ip % 2 ^ 16 ≠ 0) (empty : dinode.entries = [])
    (during : During start (update tree ip dinode) holds pins locks fs) :
    wp (createEntries dp ip name dinode.type) (fun made next =>
      match made with
      | true => scanEntries name (tree dp).entries 0 = none ∧ During start (update (update tree ip
            { dinode with
              entries := if dinode.type = .dir then dirEntries dp ip
                else [] }) dp
            { tree dp with
              entries := insertEntry { inum := ip % 2 ^ 16, name := name.take dirsiz }
                (tree dp).entries }) holds pins locks next
      | false => ∃ entries, During start (update tree ip
          { dinode with entries := entries }) holds pins locks next)
      fail fs := by
  simp only [createEntries, wp_bind, wp_ite, wp_pure]
  constructor
  · intro isDir
    rw [if_pos isDir]
    refine wp_mono (during.dirlink_fresh others dot ip) fun self middle later => ?_
    cases self with
    | false => exact ⟨by rintro ⟨⟩, fun _ => ⟨dinode.entries, later⟩⟩
    | true =>
      refine ⟨fun _ => ?_, fun absent => absurd rfl absent⟩
      refine wp_mono (later.dirlink_fresh others dotdot dp) fun parent middle later => ?_
      cases parent with
      | false => exact ⟨by rintro ⟨⟩, fun _ => ⟨_, later⟩⟩
      | true =>
        refine ⟨fun _ => ?_, fun absent => absurd rfl absent⟩
        refine wp_mono (later.dirlink_parent others differs) fun made next later => ?_
        cases made with
        | false => exact ⟨_, later⟩
        | true =>
          refine ⟨later.1, ?_⟩
          have entries : insertEntry { inum := dp % 2 ^ 16, name := dotdot.take dirsiz }
              (insertEntry { inum := ip % 2 ^ 16, name := dot.take dirsiz }
                dinode.entries) = dirEntries dp ip := by
            rw [empty]
            exact insertEntry_cons_used _ top []
          rw [← entries]
          exact later.2
  · intro notDir
    rw [if_neg notDir]
    refine wp_mono (during.dirlink_parent others differs) fun made next later => ?_
    cases made with
    | false => exact ⟨dinode.entries, later⟩
    | true =>
      have same : ({ dinode with entries := [] } : Dinode) = dinode := by
        rw [← empty]
      rw [same]
      exact later

end During

open During

/-- What create() leaves of the inode that it makes. -/
def freshDinode (dp ip : Inum) (type : FileType) (major minor : BitVec 16) : Dinode where
  type := type
  major := major
  minor := minor
  nlink := 1
  entries := if type = .dir then dirEntries dp ip else []

section Fresh

variable (dp ip : Inum) (type : FileType) (major minor : BitVec 16)

theorem freshDinode_bare : inums ((freshDinode dp ip type major minor).entries.drop 2) = 0 := by
  unfold freshDinode
  dsimp only
  split <;> rfl

theorem freshDinode_shaped (self : ip % 2 ^ 16 = ip) (parent : dp % 2 ^ 16 = dp) (top : dp ≠ 0) :
    (freshDinode dp ip type major minor).Shaped ip where
  dir isDir := by
    refine ⟨dp, [], top, ?_, nofun⟩
    refine (if_pos isDir).trans ?_
    rw [dirEntries, self, parent]
  other notDir := if_neg notDir

theorem freshDinode_up (parent : dp % 2 ^ 16 = dp) :
    (freshDinode dp ip type major minor).entries[1]?.map Dirent.inum = if type =
      .dir then some dp else none := by
  unfold freshDinode
  dsimp only
  split
  · exact congrArg some parent
  · rfl

end Fresh

/-- The tree after create(): the old links, or one more. -/
structure Fs.Makes (fs : Fs) (pid : Slot) (path : Path) (type : FileType) (tree : Tree) : Prop where
  intact : tree.Intact fs.ninodes fs.holders
  links : tree.graph = fs.inode.graph ∨ ∃ dp name ip, fs.parent pid path = some (dp, name) ∧
      fs.inode.graph.kind dp = .dir ∧ fs.inode.graph.kind ip = .free ∧
      ip < fs.ninodes ∧ tree.graph = fs.inode.graph.attach dp ip type.kind

namespace Settled

variable {fs now : Fs} {pid : Slot} {path : Path} {dp : Inum} {name : Name}
  {type : FileType} {fail : Panic → Prop} (settled : Settled fs)
  (others : ∀ reason, reason ≠ .ilockNoType → reason ≠ .unlinkNlink → fail reason)

include settled

theorem makes_same : fs.Makes pid path type fs.inode :=
  ⟨settled.intact, .inl rfl⟩

theorem makes_freed (unused : (fs.inode ip).type = .free) (dinode : Dinode) :
    fs.Makes pid path type (update fs.inode ip dinode.freed) := by
  obtain ⟨intact, same⟩ := settled.intact.unmade unused
    (show dinode.freed.type = .free from rfl) rfl
  exact ⟨intact, .inl same⟩

theorem makes_attach (parent : fs.parent pid path = some (dp, name))
    (isDir : (fs.inode dp).type = .dir) (absent : scanEntries name (fs.inode dp).entries 0 = none)
    (unused : (fs.inode ip).type = .free) (top : ip ≠ 0) (inside : ip < fs.ninodes)
    (used : type ≠ .free) (major minor : BitVec 16)
    (room : type = .dir → (fs.inode dp).nlink.toNat + 1 < 2 ^ 15) :
    fs.Makes pid path type (fs.inode.attach dp ip name (freshDinode dp ip type major minor)) := by
  have dirUsed : (fs.inode dp).type ≠ .free := by rw [isDir]; nofun
  have above := settled.intact.mod_ninodes (settled.intact.lt_ninodes dirUsed)
  have bare := freshDinode_bare dp ip type major minor
  have up := freshDinode_up dp ip type major minor above
  refine ⟨?_, .inr ⟨dp, name, ip, parent, Tree.kind_dir isDir,
    FileType.kind_eq_free.mpr unused, inside, ?_⟩⟩
  · exact settled.intact.attach isDir absent unused top inside rfl used
      (freshDinode_shaped dp ip type major minor (settled.intact.mod_ninodes inside) above
        (settled.intact.ne_zero dirUsed)) bare up room
  · exact settled.intact.graph_attach isDir absent unused top rfl used bare up

include others

theorem createFresh_spec (parent : fs.parent pid path = some (dp, name))
    (isDir : (fs.inode dp).type = .dir) (used : type ≠ .free)
    (room : type = .dir → (fs.inode dp).nlink.toNat + 1 < 2 ^ 15)
    (during : During fs fs.inode fs.holders (dp ::ₘ 0) (insert dp ∅) now)
    (major minor : BitVec 16) :
    wp (createFresh dp name type major minor) (fun found next => ∃ tree,
        fs.Makes pid path type tree ∧ fs.Locks tree next found) fail now := by
  have retained := settled.intact.retained
  simp only [createFresh, wp_bind]
  refine wp_mono (during.ialloc_spec others type) fun found middle later => ?_
  cases found with
  | none =>
    simp only [wp_bind, wp_pure]
    refine wp_mono (later.iunlockput_quiet others retained) ?_
    intro _ next unlocked
    rw [unlock_one] at unlocked
    exact ⟨fs.inode, settled.makes_same, unlocked⟩
  | some ip =>
    obtain ⟨unused, top, inside, allocated⟩ := later
    have differs : dp ≠ ip := (Tree.Intact.fresh_ne isDir unused).symm
    have self := settled.intact.mod_ninodes inside
    have both : insert ip (insert dp (∅ : Set Inum)) \ {dp} = insert ip ∅ := by
      ext inum
      simp only [Set.mem_sdiff, Set.mem_insert_iff, Set.mem_singleton_iff, Set.mem_empty_iff_false]
      constructor
      · rintro ⟨same | same | absurd, apart⟩
        · exact .inl same
        · exact absurd same apart
        · exact absurd.elim
      · rintro (rfl | absurd)
        · exact ⟨.inl rfl, differs.symm⟩
        · exact absurd.elim
    simp only [wp_bind]
    refine wp_mono (allocated.ilock_spec others (Multiset.mem_cons_self ..) ?_) ?_
    · intro free
      rw [update_self] at free
      exact absurd free used
    rintro _ middle ⟨locked, _⟩
    refine wp_mono (locked.updateInode_spec fun _ => ?_) ?_
    · rw [update_self]
      exact used
    intro _ middle later
    rw [update_self, update_idem] at later
    refine wp_mono (later.createEntries_spec others differs
      (by rw [self]; exact top) rfl) fun made middle later => ?_
    cases made with
    | true =>
      obtain ⟨absent, later⟩ := later
      have makes := settled.makes_attach parent isDir absent unused top inside used major minor room
      have finish : ∀ {middle : Fs}, During fs (fs.inode.attach dp ip name
            (freshDinode dp ip type major minor)) fs.holders
          (ip ::ₘ dp ::ₘ 0) (insert ip (insert dp ∅)) middle → wp (iunlockput dp) (fun _ next =>
            ∃ tree, fs.Makes pid path type tree ∧ (tree ip).type ≠ .free ∧
              During fs tree fs.holders (ip ::ₘ 0) (insert ip ∅) next)
            fail middle := by
        intro middle made
        rw [Multiset.cons_swap] at made
        refine wp_mono (made.iunlockput_quiet others
          makes.intact.retained) fun _ next unlocked => ?_
        rw [both] at unlocked
        refine ⟨_, makes, ?_, unlocked⟩
        rw [Tree.attach, update_of_ne differs.symm, update_self]
        exact used
      rw [self] at later
      simp only [wp_bind, wp_ite, wp_pure]
      refine ⟨fun _ => ⟨fun makesDir => ?_, fun notDir => ?_⟩, fun absent => absurd trivial absent⟩
      · refine wp_mono (later.updateInode_spec fun used => used) fun _ middle later => finish ?_
        rw [update_self, update_idem] at later
        simp only [Tree.attach, freshDinode, if_pos makesDir] at later ⊢
        exact later
      · refine finish ?_
        simp only [Tree.attach, freshDinode, if_neg notDir] at later ⊢
        exact later
    | false =>
      obtain ⟨entries, later⟩ := later
      simp only [wp_bind, wp_ite, wp_pure]
      refine ⟨by rintro ⟨⟩, fun _ => ?_⟩
      refine wp_mono (later.updateInode_spec fun used => used) fun _ middle later => ?_
      rw [update_self, update_idem] at later
      refine wp_mono (later.iunlockput_spec others (Set.mem_insert ..)) fun _ middle freed => ?_
      have gone : ip ∉ fs.holders + dp ::ₘ 0 := by
        rw [Multiset.mem_add, Multiset.mem_cons]
        rintro (held | same | nowhere)
        · exact settled.intact.held ip held unused
        · exact differs same.symm
        · exact Multiset.notMem_zero _ nowhere
      rw [Tree.reclaim, update_self, if_pos ⟨gone, rfl⟩, update_idem] at freed
      refine wp_mono (freed.iunlockput_quiet others
        (settled.intact.unmade unused rfl rfl).1.retained) ?_
      intro _ next unlocked
      rw [unlock_both] at unlocked
      exact ⟨_, settled.makes_freed unused _, unlocked⟩

theorem create_spec (dangling : Dangling fs.inode → fail .ilockNoType) (used : type ≠ .free)
    (room : ∀ dp name, fs.parent pid path = some (dp, name) → type = .dir →
      (fs.inode dp).nlink.toNat + 1 < 2 ^ 15) (major minor : BitVec 16) :
    wp (create pid path type major minor) (fun found next => ∃ tree, fs.Makes pid path type tree ∧
        fs.Locks tree next found) fail fs := by
  have retained := settled.intact.retained
  simp only [create, wp_bind]
  refine wp_mono (settled.nameiparent_spec others dangling (fun _ => rfl)
    (fun _ => rfl) retained settled.during path) ?_
  rintro found middle ⟨parent, later⟩
  cases found with
  | none => exact ⟨fs.inode, settled.makes_same, later⟩
  | some hit =>
    obtain ⟨dp, name⟩ := hit
    obtain ⟨later, isDir⟩ := later
    simp only [wp_bind]
    refine wp_mono (later.ilock_spec others (Multiset.mem_cons_self ..)
      fun free => by cases isDir.symm.trans free) ?_
    rintro _ middle ⟨locked, _⟩
    refine wp_mono (locked.dirlookup_spec others) ?_
    rintro found middle ⟨_, scanned, looked⟩
    cases found with
    | none =>
      exact settled.createFresh_spec others parent isDir used
        (room dp name parent) looked major minor
    | some hit =>
      obtain ⟨index, ip⟩ := hit
      obtain ⟨inUse, _, entry, place, same, _⟩ := scanEntries_some scanned
      obtain ⟨looked, _⟩ := looked
      rw [Multiset.cons_swap] at looked
      simp only [wp_bind]
      refine wp_mono (looked.iunlockput_quiet others retained) fun _ middle unlocked => ?_
      rw [unlock_one] at unlocked
      refine wp_mono (unlocked.ilock_spec others (Multiset.mem_cons_self ..) fun free => ?_) ?_
      · exact dangling ⟨dp, entry, isDir, List.mem_of_getElem? place, same ▸ inUse, same ▸ free⟩
      rintro _ middle ⟨locked, typed⟩
      refine wp_mono locked.readInode_spec ?_
      rintro _ middle ⟨rfl, locked⟩
      simp only [wp_bind, wp_ite, wp_pure]
      refine ⟨fun _ => ⟨fs.inode, settled.makes_same, typed, locked⟩, fun _ => ?_⟩
      refine wp_mono (locked.iunlockput_quiet others retained)
        fun _ next unlocked => ⟨fs.inode, settled.makes_same, ?_⟩
      rw [unlock_one] at unlocked
      exact unlocked

end Settled

end Xv6Lottery
