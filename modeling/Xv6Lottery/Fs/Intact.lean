import Xv6Lottery.Fs.Links

namespace Xv6Lottery

open LinkGraph During Function

/-! What the calls do to the tree, and to its graph. -/

namespace Tree

/-- create(): a fresh inode and its entry in `dp`. -/
def attach (tree : Tree) (dp ip : Inum) (name : Name) (fresh : Dinode) :
    Tree :=
  update (update tree ip fresh) dp
    { tree dp with
      entries := insertEntry { inum := ip, name := name.take dirsiz } (tree dp).entries
      nlink := if fresh.type = .dir then (tree dp).nlink + 1
        else (tree dp).nlink }

def link (tree : Tree) (dp ip : Inum) (name : Name) : Tree :=
  update (update tree ip { tree ip with nlink := (tree ip).nlink + 1 }) dp
    { tree dp with
      entries := insertEntry { inum := ip, name := name.take dirsiz } (tree dp).entries }

/-- sys_unlink() before it puts the two inodes. -/
def detach (tree : Tree) (dp ip : Inum) (index : Nat) : Tree :=
  update (update tree dp
      { tree dp with
        entries := (tree dp).entries.set index { inum := 0, name := [] }
        nlink := if (tree ip).type = .dir then (tree dp).nlink - 1
          else (tree dp).nlink })
    ip { tree ip with nlink := (tree ip).nlink - 1 }

variable (tree : Tree)

theorem graph_update (inum : Inum) (dinode : Dinode) : graph (update tree inum dinode) =
      { kind := update tree.graph.kind inum dinode.type.kind
        links := update tree.graph.links inum (inums (dinode.entries.drop 2))
        up := update tree.graph.up inum (dinode.entries[1]?.map Dirent.inum)
        count := update tree.graph.count inum
          (if dinode.type = .free then 0 else dinode.nlink.toNat) } := by
  have read : ∀ {value : Type} (field : Dinode → value),
      (fun other => field (update tree inum dinode other)) =
        update (fun other => field (tree other)) inum (field dinode) :=
    fun field => Function.comp_update field tree inum dinode
  exact DirGraph.ext (read fun dinode => dinode.type.kind)
    (read fun dinode => inums (dinode.entries.drop 2))
    (read fun dinode => dinode.entries[1]?.map Dirent.inum)
    (read fun dinode => if dinode.type = .free then 0
      else dinode.nlink.toNat)

variable {tree} {dp ip inum : Inum} {name : Name}

theorem graph_count (used : (tree inum).type ≠ .free) :
    tree.graph.count inum = (tree inum).nlink.toNat := if_neg used

theorem kind_dir (isDir : (tree inum).type = .dir) :
    tree.graph.kind inum = .dir := FileType.kind_eq_dir.mpr isDir

section

variable (used : (tree inum).type ≠ .free)

include used

theorem kind_leaf
    (notDir : (tree inum).type ≠ .dir) : tree.graph.kind inum = .leaf := by
  change (tree inum).type.kind = .leaf
  cases type : (tree inum).type with
  | free => exact absurd type used
  | dir => exact absurd type notDir
  | file => rfl
  | device => rfl

theorem kind_used :
    tree.graph.kind inum ≠ .free := FileType.kind_eq_free.not.mpr used

theorem nlink_eq_zero :
    (tree inum).nlink = 0 ↔ tree.graph.count inum = 0 := by
  rw [graph_count used, ← BitVec.toNat_inj]
  rfl

theorem graph_reclaim (refs : Multiset Inum) :
    (tree.reclaim refs inum).graph = tree.graph.drop refs inum := by
  unfold reclaim DirGraph.drop
  simp only [nlink_eq_zero used]
  split
  · exact graph_update tree inum (tree inum).freed
  · rfl

end

end Tree

/-! The invariant of the tree, with the references that processes and open
files hold. -/

structure Tree.Intact (tree : Tree) (ninodes : Nat) (holds : Multiset Inum) : Prop where
  bound : ninodes ≤ 2 ^ 16
  shaped : tree.Shaped
  sound : tree.graph.Sound (Finset.range ninodes) rootino
  small : ∀ inum, (tree inum).type ≠ .free → (tree inum).nlink.toNat < 2 ^ 15
  held : ∀ inum ∈ holds, (tree inum).type ≠ .free
  retained : Retained tree holds

namespace Tree.Intact

variable {tree : Tree} {ninodes : Nat} {holds : Multiset Inum} {dp ip inum : Inum} {name : Name}
  (intact : tree.Intact ninodes holds)

include intact

theorem ne_zero (used : (tree inum).type ≠ .free) : inum ≠ 0 := by
  rintro rfl
  exact used intact.shaped.zero

theorem lt_ninodes (used : (tree inum).type ≠ .free) : inum < ninodes :=
  Finset.mem_range.mp (intact.sound.mem_nodes (kind_used used))

theorem mod_ninodes (inside : inum < ninodes) : inum % 2 ^ 16 = inum :=
  Nat.mod_eq_of_lt (inside.trans_le intact.bound)

theorem root_used : (tree rootino).type ≠ .free := by
  intro unused
  cases intact.sound.root_dir.symm.trans (congrArg FileType.kind unused)

theorem root_nlink : (tree rootino).nlink ≠ 0 := by
  rw [ne_eq, nlink_eq_zero intact.root_used]
  exact fun zero => DirGraph.release_root intact.sound zero rfl

section

variable (used : (tree inum).type ≠ .free)

include used

theorem toNat_succ :
    ((tree inum).nlink + 1).toNat = (tree inum).nlink.toNat + 1 := by
  have bound := intact.small inum used
  rw [BitVec.toNat_add]
  exact Nat.mod_eq_of_lt (by change _ + 1 < _; omega)

theorem succ_ne_zero : (tree inum).nlink + 1 ≠ 0 := by
  intro zero
  have succ := intact.toNat_succ used
  rw [zero] at succ
  cases succ

theorem toInt_nlink :
    (tree inum).nlink.toInt = (tree inum).nlink.toNat := by
  have bound := intact.small inum used
  exact BitVec.toInt_eq_toNat_of_lt (by omega)

end

omit intact in
theorem toNat_pred (linked : (tree inum).nlink.toNat ≠ 0) :
    ((tree inum).nlink - 1).toNat = (tree inum).nlink.toNat - 1 := by
  have bound := (tree inum).nlink.isLt
  rw [BitVec.toNat_sub]
  change (2 ^ 16 - 1 + _) % 2 ^ 16 = _
  omega

/-! More references, and fewer. -/

theorem hold (used : (tree inum).type ≠ .free) : tree.Intact ninodes (inum ::ₘ holds) where
  bound := intact.bound
  shaped := intact.shaped
  sound := intact.sound
  small := intact.small
  held other member := by
    rcases Multiset.mem_cons.mp member with rfl | old
    · exact used
    · exact intact.held other old
  retained other inUse unlinked :=
    Multiset.mem_cons_of_mem (intact.retained other inUse unlinked)

omit intact in
theorem put (intact : tree.Intact ninodes (inum ::ₘ holds)) :
    (tree.reclaim holds inum).Intact ninodes holds := by
  have used := intact.held inum (Multiset.mem_cons_self ..)
  have sound := intact.sound.drop (kind_used used) holds
  rw [← graph_reclaim used] at sound
  unfold reclaim at sound ⊢
  split
  · next unreferenced =>
      rw [if_pos unreferenced] at sound
      have rest : ∀ {other}, other ≠ inum → update tree inum (tree inum).freed other = tree other :=
        fun differs => update_of_ne differs ..
      have apart : ∀ {other}, (update tree inum (tree inum).freed other).type ≠ .free →
            other ≠ inum := by
        rintro _ inUse rfl
        rw [update_self] at inUse
        exact inUse rfl
      refine ⟨intact.bound, ⟨?_, ?_⟩, sound, ?_, ?_, ?_⟩
      · rw [rest (intact.ne_zero used).symm]
        exact intact.shaped.zero
      · intro other
        by_cases same : other = inum
        · rw [same, update_self]
          exact ⟨nofun, fun _ => rfl⟩
        · rw [rest same]
          exact intact.shaped.each other
      · intro other inUse
        have same := rest (apart inUse)
        rw [same] at inUse ⊢
        exact intact.small other inUse
      · intro other member
        have differs : other ≠ inum := by
          rintro rfl
          exact unreferenced.1 member
        rw [rest differs]
        exact intact.held other (Multiset.mem_cons_of_mem member)
      · intro other inUse unlinked
        have differs := apart inUse
        rw [rest differs] at inUse unlinked
        exact (Multiset.mem_cons.mp (intact.retained other inUse unlinked)).resolve_left differs
  · next kept =>
      refine ⟨intact.bound, intact.shaped, intact.sound, intact.small, ?_, ?_⟩
      · intro other member
        exact intact.held other (Multiset.mem_cons_of_mem member)
      · intro other inUse unlinked
        rcases Multiset.mem_cons.mp (intact.retained other inUse unlinked) with rfl | old
        · by_contra absent
          exact kept ⟨absent, unlinked⟩
        · exact old

/-! A tree that differs at two inodes. -/

theorem changed (dp ip : Inum) {other : Tree}
    (rest : ∀ {inum}, inum ≠ dp → inum ≠ ip → other inum = tree inum)
    (sound : other.graph.Sound (Finset.range ninodes) rootino)
    (each : ∀ inum, inum = dp ∨ inum = ip → inum ≠ 0 ∧ (other inum).Shaped inum ∧
      (other inum).type ≠ .free ∧ (other inum).nlink.toNat < 2 ^ 15 ∧
      ((other inum).nlink = 0 → inum ∈ holds)) : other.Intact ninodes holds := by
  have split : ∀ inum, (inum = dp ∨ inum = ip) ∨ other inum = tree inum := by
    intro inum
    by_cases first : inum = dp
    · exact .inl (.inl first)
    · by_cases second : inum = ip
      · exact .inl (.inr second)
      · exact .inr (rest first second)
  refine ⟨intact.bound, ⟨?_, ?_⟩, sound, ?_, ?_, ?_⟩
  · rcases split 0 with changed | same
    · exact absurd rfl (each 0 changed).1
    · rw [same]
      exact intact.shaped.zero
  · intro inum
    rcases split inum with changed | same
    · exact (each inum changed).2.1
    · rw [same]
      exact intact.shaped.each inum
  · intro inum used
    rcases split inum with changed | same
    · exact (each inum changed).2.2.2.1
    · rw [same] at used ⊢
      exact intact.small inum used
  · intro inum member
    rcases split inum with changed | same
    · exact (each inum changed).2.2.1
    · rw [same]
      exact intact.held inum member
  · intro inum used unlinked
    rcases split inum with changed | same
    · exact (each inum changed).2.2.2.2 unlinked
    · rw [same] at used unlinked
      exact intact.retained inum used unlinked

theorem unmade (unused : (tree ip).type = .free) (free : dinode.type = .free)
    (empty : dinode.entries = []) :
    Tree.Intact (update tree ip dinode) ninodes holds ∧ Tree.graph (update tree ip dinode) =
      tree.graph := by
  have bare := (intact.shaped.each ip).other (by rw [unused]; nofun)
  have same : Tree.graph (update tree ip dinode) = tree.graph := by
    have kind : dinode.type.kind = tree.graph.kind ip := by
      rw [free]
      exact (FileType.kind_eq_free.mpr unused).symm
    have links : inums (dinode.entries.drop 2) = tree.graph.links ip := by
      rw [empty]
      exact (congrArg (fun entries => inums (entries.drop 2)) bare).symm
    have up : dinode.entries[1]?.map Dirent.inum = tree.graph.up ip := by
      rw [empty]
      exact (congrArg (fun entries : List Dirent =>
        entries[1]?.map Dirent.inum) bare).symm
    have count : tree.graph.count ip = 0 := if_pos unused
    rw [graph_update, kind, links, up, if_pos free, ← count, update_eq_self, update_eq_self,
      update_eq_self, update_eq_self]
  have split : ∀ inum, (update tree ip dinode inum).type ≠ .free →
      update tree ip dinode inum = tree inum := by
    intro inum used
    refine update_of_ne ?_ ..
    rintro rfl
    rw [update_self] at used
    exact used free
  refine ⟨⟨intact.bound, ⟨?_, ?_⟩, ?_, ?_, ?_, ?_⟩, same⟩
  · by_contra used
    rw [split 0 used] at used
    exact used intact.shaped.zero
  · intro inum
    by_cases here : inum = ip
    · subst here
      rw [update_self]
      exact ⟨fun isDir => (nomatch free.symm.trans isDir), fun _ => empty⟩
    · rw [update_of_ne here]
      exact intact.shaped.each inum
  · rw [same]
    exact intact.sound
  · intro inum used
    have kept := split inum used
    rw [kept] at used ⊢
    exact intact.small inum used
  · intro inum member
    have used := intact.held inum member
    have differs : inum ≠ ip := by
      rintro rfl
      exact used unused
    rw [update_of_ne differs]
    exact used
  · intro inum used unlinked
    have kept := split inum used
    rw [kept] at used unlinked
    exact intact.retained inum used unlinked

section Attach

variable {fresh : Dinode} (isDir : (tree dp).type = .dir)
  (absent : scanEntries name (tree dp).entries 0 = none) (unused : (tree ip).type = .free)

include isDir unused in
omit intact in
theorem fresh_ne : ip ≠ dp := by
  rintro rfl
  cases isDir.symm.trans unused

include isDir absent unused

theorem graph_attach (top : ip ≠ 0) (one : fresh.nlink = 1) (used : fresh.type ≠ .free)
    (bare : inums (fresh.entries.drop 2) = 0)
    (up : fresh.entries[1]?.map Dirent.inum = if fresh.type = .dir then some dp else none) :
    (tree.attach dp ip name fresh).graph = tree.graph.attach dp ip fresh.type.kind := by
  have dirUsed : (tree dp).type ≠ .free := by rw [isDir]; nofun
  have differs := fresh_ne isDir unused
  obtain ⟨_, links, parent⟩ := (intact.shaped.each dp).insert isDir
    (intact.ne_zero dirUsed) absent top rfl
  have empty := (intact.shaped.each ip).other (by rw [unused]; nofun)
  rw [Tree.attach, graph_update, graph_update]
  apply DirGraph.ext
  · funext node
    by_cases atParent : node = dp
    · subst atParent
      simp [DirGraph.attach, graph, differs.symm]
    · simp [DirGraph.attach, atParent]
  · funext node
    by_cases atParent : node = dp
    · subst atParent
      simp [DirGraph.attach, links, graph]
    · by_cases atFresh : node = ip
      · subst atFresh
        simp [DirGraph.attach, atParent, bare, graph, empty, inums_nil]
      · simp [DirGraph.attach, atParent, atFresh]
  · funext node
    by_cases atParent : node = dp
    · subst atParent
      simp only [DirGraph.attach, FileType.kind_eq_dir]
      split <;> simp [parent, graph, differs.symm]
    · simp only [DirGraph.attach, FileType.kind_eq_dir, up, update_of_ne atParent]
      by_cases atFresh : node = ip
      · subst atFresh
        split <;> simp [graph, empty]
      · split <;> simp [atFresh]
  · funext node
    by_cases atParent : node = dp
    · subst atParent
      simp only [DirGraph.attach, FileType.kind_eq_dir, if_neg dirUsed,
        update_self, update_of_ne differs.symm]
      by_cases makesDir : fresh.type = .dir
      · rw [if_pos makesDir, if_pos makesDir, intact.toNat_succ dirUsed,
          update_self, graph_count dirUsed]
      · rw [if_neg makesDir, if_neg makesDir, graph_count dirUsed]
    · simp only [DirGraph.attach, FileType.kind_eq_dir, one, if_neg used, update_of_ne atParent]
      by_cases atFresh : node = ip
      · subst atFresh
        simp
      · split <;> simp [atFresh, atParent]

theorem attach (top : ip ≠ 0) (inside : ip < ninodes) (one : fresh.nlink = 1)
    (used : fresh.type ≠ .free) (shaped : fresh.Shaped ip)
    (bare : inums (fresh.entries.drop 2) = 0)
    (up : fresh.entries[1]?.map Dirent.inum = if fresh.type = .dir then some dp else none)
    (room : fresh.type = .dir → (tree dp).nlink.toNat + 1 < 2 ^ 15) :
    (tree.attach dp ip name fresh).Intact ninodes holds := by
  have dirUsed : (tree dp).type ≠ .free := by rw [isDir]; nofun
  have differs := fresh_ne isDir unused
  obtain ⟨parentShaped, _, _⟩ := (intact.shaped.each dp).insert isDir
    (intact.ne_zero dirUsed) absent top rfl
  refine intact.changed dp ip ?_ ?_ ?_
  · intro inum first second
    rw [Tree.attach, update_of_ne first, update_of_ne second]
  · rw [intact.graph_attach isDir absent unused top one used bare up]
    exact intact.sound.attach (kind_dir isDir)
      (FileType.kind_eq_free.mpr unused) (Finset.mem_range.mpr inside)
      (FileType.kind_eq_free.not.mpr used)
  · rintro _ (rfl | rfl)
    · rw [Tree.attach, update_self]
      refine ⟨intact.ne_zero dirUsed, parentShaped.congr rfl rfl, dirUsed, ?_, ?_⟩
      · dsimp only
        split
        · next makesDir =>
            rw [intact.toNat_succ dirUsed]
            exact room makesDir
        · exact intact.small _ dirUsed
      · dsimp only
        split
        · exact fun zero => absurd zero (intact.succ_ne_zero dirUsed)
        · exact intact.retained _ dirUsed
    · rw [Tree.attach, update_of_ne differs, update_self, one]
      exact ⟨top, shaped, used, by decide, nofun⟩

end Attach

section Link

variable (isDir : (tree dp).type = .dir) (absent : scanEntries name (tree dp).entries 0 = none)
  (used : (tree ip).type ≠ .free) (notDir : (tree ip).type ≠ .dir)

include isDir absent used notDir

theorem graph_link : (tree.link dp ip name).graph = tree.graph.link dp ip := by
  have dirUsed : (tree dp).type ≠ .free := by rw [isDir]; nofun
  have differs : ip ≠ dp := by
    rintro rfl
    exact notDir isDir
  obtain ⟨_, links, parent⟩ := (intact.shaped.each dp).insert isDir
    (intact.ne_zero dirUsed) absent (intact.ne_zero used) rfl
  rw [Tree.link, graph_update, graph_update]
  apply DirGraph.ext
  · funext node
    by_cases atParent : node = dp
    · subst atParent
      simp [DirGraph.link, graph]
    · by_cases atLeaf : node = ip
      · subst atLeaf
        simp [DirGraph.link, graph, atParent]
      · simp [DirGraph.link, atParent, atLeaf]
  · funext node
    by_cases atParent : node = dp
    · subst atParent
      simp [DirGraph.link, links, graph]
    · by_cases atLeaf : node = ip
      · subst atLeaf
        simp [DirGraph.link, atParent, graph]
      · simp [DirGraph.link, atParent, atLeaf]
  · funext node
    by_cases atParent : node = dp
    · subst atParent
      simp [DirGraph.link, parent, graph]
    · by_cases atLeaf : node = ip
      · subst atLeaf
        simp [DirGraph.link, atParent, graph]
      · simp [DirGraph.link, atParent, atLeaf]
  · funext node
    by_cases atParent : node = dp
    · subst atParent
      simp [DirGraph.link, dirUsed, differs.symm, graph_count dirUsed]
    · by_cases atLeaf : node = ip
      · subst atLeaf
        simp only [DirGraph.link, update_of_ne atParent, update_self, if_neg used]
        rw [intact.toNat_succ used, graph_count used]
      · simp [DirGraph.link, atParent, atLeaf]

theorem link (room : (tree ip).nlink.toNat + 1 < 2 ^ 15) :
    (tree.link dp ip name).Intact ninodes holds := by
  have dirUsed : (tree dp).type ≠ .free := by rw [isDir]; nofun
  have differs : ip ≠ dp := by
    rintro rfl
    exact notDir isDir
  have leaf := kind_leaf used notDir
  obtain ⟨parentShaped, _, _⟩ := (intact.shaped.each dp).insert isDir
    (intact.ne_zero dirUsed) absent (intact.ne_zero used) rfl
  refine intact.changed dp ip ?_ ?_ ?_
  · intro inum first second
    rw [Tree.link, update_of_ne first, update_of_ne second]
  · rw [intact.graph_link isDir absent used notDir]
    exact intact.sound.link (kind_dir isDir) leaf
  · rintro _ (rfl | rfl)
    · rw [Tree.link, update_self]
      exact ⟨intact.ne_zero dirUsed, parentShaped, dirUsed,
        intact.small _ dirUsed, intact.retained _ dirUsed⟩
    · rw [Tree.link, update_of_ne differs, update_self]
      refine ⟨intact.ne_zero used, (intact.shaped.each _).congr rfl rfl, used, ?_, ?_⟩
      · rw [intact.toNat_succ used]
        exact room
      · exact fun zero => absurd zero (intact.succ_ne_zero used)

end Link

section Detach

variable {index : Nat} (isDir : (tree dp).type = .dir)
  (found : scanEntries name (tree dp).entries 0 = some (index, ip))
  (notDot : namecmp name dot ≠ true) (notDotdot : namecmp name dotdot ≠ true)
  (empty : (tree ip).type = .dir → inums ((tree ip).entries.drop 2) = 0)

include isDir found notDot notDotdot

theorem mem_links : ip ∈ tree.graph.links dp := by
  obtain ⟨_, _, links, _⟩ := (intact.shaped.each dp).clear isDir found notDot notDotdot rfl
  change ip ∈ inums ((tree dp).entries.drop 2)
  rw [← links]
  exact Multiset.mem_cons_self ..

theorem target_used : (tree ip).type ≠ .free := by
  have linked := intact.sound.linked (intact.mem_links isDir found notDot notDotdot)
  exact fun unused => linked (FileType.kind_eq_free.mpr unused)

theorem target_linked : (tree ip).nlink.toNat ≠ 0 := by
  have link := intact.mem_links isDir found notDot notDotdot
  have used := intact.target_used isDir found notDot notDotdot
  rw [← graph_count used]
  intro zero
  exact intact.sound.named_pos link (DirGraph.named_gone intact.sound (kind_used used) zero)

theorem target_counted : 1 ≤ (tree ip).nlink.toInt := by
  have used := intact.target_used isDir found notDot notDotdot
  have linked := intact.target_linked isDir found notDot notDotdot
  rw [intact.toInt_nlink used]
  omega

theorem parent_linked (dirTarget : (tree ip).type = .dir) : (tree dp).nlink.toNat ≠ 0 := by
  have dirUsed : (tree dp).type ≠ .free := by rw [isDir]; nofun
  rw [← graph_count dirUsed]
  intro zero
  have exact := intact.sound.dir_count (kind_dir isDir)
  refine DirGraph.not_dir_of_subdirs ?_
    (intact.mem_links isDir found notDot notDotdot) (kind_dir dirTarget)
  omega

include empty

theorem target_ne : dp ≠ ip :=
  DirGraph.parent_ne_gone intact.sound (intact.mem_links isDir found notDot notDotdot)
    fun dirTarget => empty (FileType.kind_eq_dir.mp dirTarget)

theorem graph_detach : (tree.detach dp ip index).graph = tree.graph.detach dp ip := by
  have dirUsed : (tree dp).type ≠ .free := by rw [isDir]; nofun
  have used := intact.target_used isDir found notDot notDotdot
  have differs := intact.target_ne isDir found notDot notDotdot empty
  obtain ⟨_, _, links, parent⟩ := (intact.shaped.each dp).clear isDir found notDot notDotdot rfl
  rw [Tree.detach, graph_update, graph_update]
  apply DirGraph.ext
  · funext node
    by_cases atTarget : node = ip
    · subst atTarget
      simp [DirGraph.detach, graph]
    · by_cases atParent : node = dp
      · subst atParent
        simp [DirGraph.detach, graph, atTarget]
      · simp [DirGraph.detach, atParent, atTarget]
  · funext node
    by_cases atTarget : node = ip
    · subst atTarget
      simp [DirGraph.detach, graph, differs.symm]
    · by_cases atParent : node = dp
      · subst atParent
        simp only [DirGraph.detach, update_of_ne atTarget, update_self]
        change _ = (inums ((tree node).entries.drop 2)).erase ip
        rw [← links, Multiset.erase_cons_head]
      · simp [DirGraph.detach, atParent, atTarget]
  · funext node
    by_cases atTarget : node = ip
    · subst atTarget
      simp [DirGraph.detach, graph]
    · by_cases atParent : node = dp
      · subst atParent
        simp [DirGraph.detach, graph, atTarget, parent]
      · simp [DirGraph.detach, atParent, atTarget]
  · have dirKind : tree.graph.kind ip = .dir ↔ (tree ip).type = .dir :=
      FileType.kind_eq_dir
    funext node
    simp only [DirGraph.detach, dirKind]
    by_cases atTarget : node = ip
    · subst atTarget
      rw [update_self, update_self, if_neg used, graph_count used]
      exact toNat_pred (intact.target_linked isDir found notDot notDotdot)
    · rw [update_of_ne atTarget, update_of_ne atTarget]
      by_cases atParent : node = dp
      · subst atParent
        rw [update_self, if_neg dirUsed]
        by_cases dirTarget : (tree ip).type = .dir
        · rw [if_pos dirTarget, if_pos dirTarget, update_self, graph_count dirUsed]
          exact toNat_pred (intact.parent_linked isDir found notDot notDotdot dirTarget)
        · rw [if_neg dirTarget, if_neg dirTarget, graph_count dirUsed]
      · rw [update_of_ne atParent]
        split
        · rw [update_of_ne atParent]
        · rfl

theorem detach : (tree.detach dp ip index).Intact ninodes (dp ::ₘ ip ::ₘ holds) := by
  have dirUsed : (tree dp).type ≠ .free := by rw [isDir]; nofun
  have used := intact.target_used isDir found notDot notDotdot
  have differs := intact.target_ne isDir found notDot notDotdot empty
  obtain ⟨parentShaped, _, _, _⟩ := (intact.shaped.each dp).clear isDir found notDot notDotdot rfl
  refine ((intact.hold used).hold dirUsed).changed dp ip ?_ ?_ ?_
  · intro inum first second
    rw [Tree.detach, update_of_ne second, update_of_ne first]
  · rw [intact.graph_detach isDir found notDot notDotdot empty]
    exact intact.sound.detach (intact.mem_links isDir found notDot notDotdot)
      fun dirTarget => empty (FileType.kind_eq_dir.mp dirTarget)
  · rintro _ (rfl | rfl)
    · rw [Tree.detach, update_of_ne differs, update_self]
      refine ⟨intact.ne_zero dirUsed, parentShaped.congr rfl rfl, dirUsed,
        ?_, fun _ => Multiset.mem_cons_self ..⟩
      dsimp only
      have bound := intact.small _ dirUsed
      split
      · next dirTarget =>
          rw [toNat_pred (intact.parent_linked isDir found notDot notDotdot dirTarget)]
          omega
      · exact bound
    · rw [Tree.detach, update_self]
      refine ⟨intact.ne_zero used, (intact.shaped.each _).congr rfl rfl, used, ?_,
        fun _ => Multiset.mem_cons_of_mem (Multiset.mem_cons_self ..)⟩
      have bound := intact.small _ used
      rw [toNat_pred (intact.target_linked isDir found notDot notDotdot)]
      omega

end Detach

end Tree.Intact

end Xv6Lottery
