import Xv6Lottery.Fs.Call

namespace Xv6Lottery

open Function

open Outcome.Prog

/-! A call while it runs: the references that it has taken on inodes, apart
from those that processes and open files hold, and the inodes it has
locked. -/

def Dinode.freed (dinode : Dinode) : Dinode :=
  { dinode with type := .free, entries := [] }

/-- The tree after the last reference but `refs` to an inode is put. -/
def Tree.reclaim (tree : Tree) (refs : Multiset Inum) (inum : Inum) : Tree :=
  if inum ∉ refs ∧ (tree inum).nlink = 0 then
    update tree inum (tree inum).freed
  else tree

@[simp] theorem Fs.setSlot_itable (fs : Fs) (inum : Inum)
    (slot : InodeSlot) : (fs.setSlot inum slot).itable inum = slot :=
  update_self ..

@[simp] theorem Fs.setSlot_inode (fs : Fs) (inum : Inum)
    (slot : InodeSlot) : (fs.setSlot inum slot).inode = fs.inode := rfl

@[simp] theorem Fs.setSlot_setSlot (fs : Fs) (inum : Inum) (first second : InodeSlot) :
    (fs.setSlot inum first).setSlot inum second = fs.setSlot inum second := by
  unfold Fs.setSlot
  dsimp only
  rw [update_idem]

@[simp] theorem Fs.setInode_itable (fs : Fs) (inum : Inum)
    (dinode : Dinode) : (fs.setInode inum dinode).itable = fs.itable := rfl

@[simp] theorem Fs.setInode_inode (fs : Fs) (inum : Inum)
    (dinode : Dinode) : (fs.setInode inum dinode).inode inum = dinode :=
  update_self ..

@[simp] theorem Fs.setInode_setSlot (fs : Fs) (inum other : Inum)
    (dinode : Dinode) (slot : InodeSlot) : (fs.setInode inum dinode).setSlot other slot =
      (fs.setSlot other slot).setInode inum dinode := rfl

@[simp] theorem Fs.setInode_setInode (fs : Fs) (inum : Inum) (first second : Dinode) :
    (fs.setInode inum first).setInode inum second = fs.setInode inum second := by
  unfold Fs.setInode
  dsimp only
  rw [update_idem]

theorem wp_iput {post : Unit → Fs → Prop} {fail : Panic → Prop} (inum : Inum) :
    wp (iput inum) post fail fs ↔ ((fs.itable inum).ref = 1 ∧ (fs.itable inum).valid = true ∧
          (fs.inode inum).nlink = 0 → ((fs.itable inum).locked = true → fail .deadlock) ∧
          (¬(fs.itable inum).locked = true → post () ((fs.setSlot inum
              { ref := (fs.itable inum).ref - 1
                valid := false
                locked := false }).setInode inum (fs.inode inum).freed))) ∧
        (¬((fs.itable inum).ref = 1 ∧ (fs.itable inum).valid = true ∧ (fs.inode inum).nlink = 0) →
          post () (fs.setSlot inum { fs.itable inum with ref := (fs.itable inum).ref - 1 })) := by
  simp only [iput, acquiresleep, releasesleep, itrunc, updateInode, wp_bind,
    wp_get, wp_ite, wp_throw, wp_modify, Fs.setSlot_itable,
    Fs.setSlot_inode, Fs.setSlot_setSlot, Fs.setInode_itable,
    Fs.setInode_inode, Fs.setInode_setSlot, Fs.setInode_setInode]
  exact Iff.rfl

structure During (start : Fs) (tree : Tree) (holds pins : Multiset Inum)
    (locks : Set Inum) (fs : Fs) : Prop where
  ninodes : fs.ninodes = start.ninodes
  ftable : fs.ftable = start.ftable
  proc : fs.proc = start.proc
  inode : fs.inode = tree
  ref : ∀ inum, (fs.itable inum).ref = (holds + pins).count inum
  live : ∀ inum ∈ holds + pins, (fs.itable inum).valid = true → (tree inum).type ≠ .free
  kept : ∀ inum ∈ holds, inum ≠ rootino → (fs.itable inum).valid = true
  locked : ∀ inum, (fs.itable inum).locked = true ↔ inum ∈ locks
  valid : ∀ inum ∈ locks, (fs.itable inum).valid = true
  pinned : ∀ inum ∈ locks, inum ∈ pins

namespace During

variable {start fs : Fs} {tree : Tree} {holds pins : Multiset Inum}
  {locks : Set Inum} {inum : Inum} {fail : Panic → Prop}

section

variable (during : During start tree holds pins locks fs)

include during

theorem rebase :
    During fs tree holds pins locks fs :=
  { during with ninodes := rfl, ftable := rfl, proc := rfl }

theorem setSlot
    (ref : slot.ref = (holds + after).count inum)
    (refs : ∀ other, other ≠ inum → after.count other = pins.count other)
    (live : inum ∈ holds + after → slot.valid = true → (tree inum).type ≠ .free)
    (kept : inum ∈ holds → (fs.itable inum).valid = true → slot.valid = true)
    (locked : slot.locked = true ↔ inum ∈ left)
    (locks : ∀ other, other ≠ inum → (other ∈ left ↔ other ∈ locks))
    (own : inum ∈ left → slot.valid = true ∧ inum ∈ after) :
    During start tree holds after left (fs.setSlot inum slot) := by
  have self : (fs.setSlot inum slot).itable inum = slot :=
    update_self ..
  have rest : ∀ {other}, other ≠ inum → (fs.setSlot inum slot).itable other = fs.itable other :=
    fun differs => update_of_ne differs ..
  have mem : ∀ {other}, other ≠ inum → (other ∈ after ↔ other ∈ pins) := by
    intro other differs
    rw [← Multiset.count_pos, ← Multiset.count_pos, refs other differs]
  exact {
    ninodes := during.ninodes
    ftable := during.ftable
    proc := during.proc
    inode := during.inode
    ref := by
      intro other
      by_cases same : other = inum
      · rw [same, self, ref]
      · rw [rest same, during.ref, Multiset.count_add, Multiset.count_add, refs other same]
    live := by
      intro other member valid
      by_cases same : other = inum
      · subst same
        rw [self] at valid
        exact live member valid
      · rw [rest same] at valid
        rw [Multiset.mem_add, mem same, ← Multiset.mem_add] at member
        exact during.live other member valid
    kept := by
      intro other member notRoot
      have before := during.kept other member notRoot
      by_cases same : other = inum
      · subst same
        rw [self]
        exact kept member before
      · rw [rest same]
        exact before
    locked := by
      intro other
      by_cases same : other = inum
      · rw [same, self, locked]
      · rw [rest same, during.locked, locks other same]
    valid := by
      intro other member
      by_cases same : other = inum
      · subst same
        rw [self]
        exact (own member).1
      · rw [rest same]
        exact during.valid other ((locks other same).mp member)
    pinned := by
      intro other member
      by_cases same : other = inum
      · subst same
        exact (own member).2
      · rw [mem same]
        exact during.pinned other ((locks other same).mp member) }

theorem setInode
    (type : inum ∈ holds + pins → (tree inum).type ≠ .free → dinode.type ≠ .free) :
    During start (update tree inum dinode) holds pins locks (fs.setInode inum dinode) :=
  { during with
    inode := by
      unfold Fs.setInode
      dsimp only
      rw [during.inode]
    live := by
      intro other member valid
      have before := during.live other member valid
      by_cases same : other = inum
      · subst same
        rw [update_self]
        exact type member before
      · rw [update_of_ne same]
        exact before }

end

theorem unlock_one (inum : Inum) : insert inum (∅ : Set Inum) \ {inum} = ∅ := by
  simp

theorem unlock_both (first second : Inum) :
    (insert first (insert second (∅ : Set Inum)) \ {first}) \ {second} = ∅ := by
  refine Set.eq_empty_of_forall_notMem ?_
  rintro inum ⟨⟨same | same | nowhere, apart⟩, other⟩
  · exact apart same
  · exact other same
  · exact nowhere

/-! The functions of the inode layer. Every panic but "ilock: no type" is a
call that does not return. -/

section Inode

variable (during : During start tree holds pins locks fs)
  (others : ∀ reason, reason ≠ .ilockNoType → reason ≠ .unlinkNlink → fail reason)

include during

theorem readInode_spec :
    wp (readInode inum) (fun dinode next => dinode = tree inum ∧
        During start tree holds pins locks next) fail fs := by
  simp only [readInode, wp_bind, wp_get, wp_pure]
  exact ⟨by rw [during.inode], during⟩

theorem updateInode_spec (type : (tree inum).type ≠ .free → (change (tree inum)).type ≠ .free) :
    wp (updateInode inum change) (fun _ next => During start (update tree inum (change (tree inum)))
        holds pins locks next) fail fs := by
  simp only [updateInode, wp_modify]
  rw [during.inode]
  exact during.setInode fun _ => type

theorem idup_spec (held : inum ∈ holds + pins) :
    wp (idup inum) (fun _ next => During start tree holds (inum ::ₘ pins) locks next) fail fs := by
  simp only [idup, wp_modify]
  refine during.setSlot ?_ ?_ ?_ (fun _ => id) (during.locked inum) (fun _ _ => Iff.rfl) ?_
  · rw [during.ref, Multiset.add_cons, Multiset.count_cons_self]
  · intro other differs
    exact Multiset.count_cons_of_ne differs pins
  · exact fun _ valid => during.live inum held valid
  · intro member
    exact ⟨during.valid inum member, Multiset.mem_cons_self ..⟩

include others

theorem iget_spec :
    wp (iget inum) (fun _ next => During start tree holds (inum ::ₘ pins) locks next ∧
        (inum ∈ holds + pins ∨ (next.itable inum).valid = false)) fail fs := by
  simp only [iget, wp_bind, wp_get, wp_ite, wp_throw, wp_modify]
  refine ⟨fun referenced => ?_, fun unreferenced =>
    ⟨fun _ => others _ (by decide) (by decide), fun _ => ?_⟩⟩
  · rw [during.ref, Multiset.count_pos] at referenced
    have duplicated : wp (idup inum) _ fail fs := during.idup_spec referenced
    exact ⟨duplicated, .inl referenced⟩
  · rw [during.ref, Multiset.count_pos] at unreferenced
    have unlocked : inum ∉ locks := fun member => unreferenced
      (Multiset.mem_add.mpr (.inr (during.pinned inum member)))
    refine ⟨during.setSlot ?_ ?_ (by rintro _ ⟨⟩) ?_ (during.locked inum)
      (fun _ _ => Iff.rfl) (fun member => absurd member unlocked), .inr ?_⟩
    · rw [Multiset.add_cons, Multiset.count_cons_self, Multiset.count_eq_zero.mpr unreferenced]
    · intro other differs
      exact Multiset.count_cons_of_ne differs pins
    · intro member
      exact absurd (Multiset.mem_add.mpr (.inl member)) unreferenced
    · rw [Fs.setSlot_itable]

theorem ilock_spec (pinned : inum ∈ pins)
    (dangling : (tree inum).type = .free → fail .ilockNoType) :
    wp (ilock inum) (fun _ next => During start tree holds pins (insert inum locks) next ∧
        (tree inum).type ≠ .free) fail fs := by
  have member : inum ∈ holds + pins := Multiset.mem_add.mpr (.inr pinned)
  simp only [ilock, acquiresleep, wp_bind, wp_get, wp_ite, wp_throw,
    wp_modify, wp_pure, Fs.setSlot_itable, Fs.setSlot_setSlot, Fs.setSlot_inode]
  rw [during.inode]
  refine ⟨fun _ => others _ (by decide) (by decide), fun _ =>
    ⟨fun _ => others _ (by decide) (by decide),
    fun _ => ⟨fun valid => ?_, fun _ => ⟨dangling, fun used => ?_⟩⟩⟩⟩
  · have live := during.live inum member valid
    refine ⟨during.setSlot (during.ref inum) (fun _ _ => rfl)
      (fun _ _ => live) (fun _ => id) (by simp) ?_ fun _ => ⟨valid, pinned⟩,
      live⟩
    intro other differs
    simp [differs]
  · refine ⟨during.setSlot (during.ref inum) (fun _ _ => rfl)
      (fun _ _ => used) (fun _ _ => rfl) (by simp) ?_
      fun _ => ⟨rfl, pinned⟩, used⟩
    intro other differs
    simp [differs]

theorem iunlock_spec :
    wp (iunlock inum) (fun _ next => During start tree holds pins (locks \ {inum}) next ∧
        (next.itable inum).valid = (fs.itable inum).valid) fail fs := by
  simp only [iunlock, releasesleep, wp_bind, wp_get, wp_ite, wp_throw, wp_modify]
  refine ⟨fun _ => others _ (by decide) (by decide), fun _ => ⟨during.setSlot
    (during.ref inum) (fun _ _ => rfl) (during.live inum) (fun _ => id)
    (by simp) ?_ (by simp), by simp⟩⟩
  intro other differs
  simp [differs]

end Inode

section Put

variable (during : During start tree holds (inum ::ₘ pins) locks fs) (unlocked : inum ∉ locks)

include during

theorem dropRef (ref : slot.ref = (fs.itable inum).ref - 1)
    (valid : slot.valid = (fs.itable inum).valid ∨ inum ∉ holds + pins)
    (locked : slot.locked = true ↔ inum ∈ locks) (pinned : inum ∈ locks → inum ∈ pins) :
    During start tree holds pins locks (fs.setSlot inum slot) := by
  refine during.setSlot ?_ ?_ ?_ ?_ locked (fun _ _ => Iff.rfl) ?_
  · rw [ref, during.ref, Multiset.add_cons, Multiset.count_cons_self, Nat.add_sub_cancel]
  · intro other differs
    exact (Multiset.count_cons_of_ne differs pins).symm
  · intro member live
    rcases valid with same | last
    · rw [same] at live
      refine during.live inum ?_ live
      rw [Multiset.add_cons]
      exact Multiset.mem_cons_self ..
    · exact absurd member last
  · intro member before
    rcases valid with same | last
    · rw [same]
      exact before
    · exact absurd (Multiset.mem_add.mpr (.inl member)) last
  · intro member
    refine ⟨?_, pinned member⟩
    rcases valid with same | last
    · rw [same]
      exact during.valid inum member
    · exact absurd (Multiset.mem_add.mpr (.inr (pinned member))) last

theorem one_lt_ref (stays : inum ∈ holds + pins) : (fs.itable inum).ref ≠ 1 := by
  rw [during.ref, Multiset.add_cons, Multiset.count_cons_self]
  have positive := Multiset.count_pos.mpr stays
  omega

/-- iput() of an inode that stays: others refer to it, or it was never
locked, or it has links. -/
theorem iput_keep (pinned : inum ∈ locks → inum ∈ pins)
    (stays : inum ∈ holds + pins ∨ (fs.itable inum).valid = false ∨ (tree inum).nlink ≠ 0) :
    wp (iput inum) (fun _ next => During start tree holds pins locks next) fail fs := by
  rw [wp_iput, during.inode]
  constructor
  · rintro ⟨last, valid, unlinked⟩
    rcases stays with referenced | invalid | linked
    · exact absurd last (during.one_lt_ref referenced)
    · cases valid.symm.trans invalid
    · exact absurd unlinked linked
  · intro _
    exact during.dropRef rfl (.inl rfl) (during.locked inum) pinned

variable (unlocked : inum ∉ locks)

include unlocked

theorem iput_spec
    (valid : inum ∉ holds + pins → (tree inum).nlink = 0 → (fs.itable inum).valid = true) :
    wp (iput inum) (fun _ next => During start (tree.reclaim (holds + pins) inum) holds pins locks
        next) fail fs := by
  unfold Tree.reclaim
  split
  · next freed =>
      rw [wp_iput, during.inode]
      have last : (fs.itable inum).ref = 1 := by
        rw [during.ref, Multiset.add_cons, Multiset.count_cons_self,
          Multiset.count_eq_zero.mpr freed.1]
      refine ⟨fun _ => ⟨fun locked => ?_, fun _ => ?_⟩, fun stays => ?_⟩
      · exact absurd ((during.locked inum).mp locked) unlocked
      · exact (during.dropRef rfl (.inr freed.1) (by simp [unlocked])
          fun member => absurd member unlocked).setInode fun member => absurd member freed.1
      · exact absurd ⟨last, valid freed.1 freed.2, freed.2⟩ stays
  · next kept =>
      rw [not_and_or, not_not] at kept
      exact during.iput_keep (fun member => absurd member unlocked) (kept.imp_right .inr)

end Put

theorem iunlockput_spec (during : During start tree holds (inum ::ₘ pins) locks fs)
    (others : ∀ reason, reason ≠ .ilockNoType → reason ≠ .unlinkNlink → fail reason)
    (locked : inum ∈ locks) :
    wp (iunlockput inum) (fun _ next => During start (tree.reclaim (holds + pins) inum) holds pins
        (locks \ {inum}) next) fail fs := by
  simp only [iunlockput, wp_bind]
  refine wp_mono (during.iunlock_spec others) ?_
  rintro _ middle ⟨unlocked, valid⟩
  refine unlocked.iput_spec (by simp) fun _ _ => ?_
  rw [valid]
  exact during.valid inum locked

/-! Calls that change no inode. -/

/-- Inodes in use without links are held by a process or an open file. -/
def Retained (tree : Tree) (holds : Multiset Inum) : Prop :=
  ∀ inum, (tree inum).type ≠ .free → (tree inum).nlink = 0 → inum ∈ holds

theorem iput_quiet (during : During start tree holds (inum ::ₘ pins) locks fs)
    (retained : Retained tree holds) (unlocked : inum ∉ locks) :
    wp (iput inum) (fun _ next => During start tree holds pins locks next) fail fs := by
  refine during.iput_keep (fun member => absurd member unlocked) ?_
  by_cases valid : (fs.itable inum).valid = true
  · have used := during.live inum (by rw [Multiset.add_cons]; exact Multiset.mem_cons_self ..) valid
    by_cases unlinked : (tree inum).nlink = 0
    · exact .inl (Multiset.mem_add.mpr (.inl (retained inum used unlinked)))
    · exact .inr (.inr unlinked)
  · exact .inr (.inl (by simpa using valid))

theorem iunlockput_quiet (during : During start tree holds (inum ::ₘ pins) locks fs)
    (others : ∀ reason, reason ≠ .ilockNoType → reason ≠ .unlinkNlink → fail reason)
    (retained : Retained tree holds) :
    wp (iunlockput inum) (fun _ next => During start tree holds pins (locks \ {inum}) next) fail fs
      := by
  simp only [iunlockput, wp_bind]
  refine wp_mono (during.iunlock_spec others) ?_
  rintro _ middle ⟨unlocked, _⟩
  exact unlocked.iput_quiet retained (by simp)

/-! Directories. -/

/-- Where dirlink() puts an entry: in the first empty place, or at the
end. -/
def insertEntry (entry : Dirent) (entries : List Dirent) : List Dirent :=
  if entries.findIdx (·.inum = 0) < entries.length then
    entries.set (entries.findIdx (·.inum = 0)) entry
  else entries ++ [entry]

section Directory

variable (during : During start tree holds pins locks fs)
  (others : ∀ reason, reason ≠ .ilockNoType → reason ≠ .unlinkNlink → fail reason)
  {dp : Inum} {name : Name}

include during others

theorem dirlookup_spec : wp (dirlookup dp name) (fun found next => (tree dp).type = .dir ∧
      scanEntries name (tree dp).entries 0 = found ∧ match found with
      | none => During start tree holds pins locks next
      | some (_, inum) =>
        During start tree holds (inum ::ₘ pins) locks next ∧
          (inum ∈ holds + pins ∨ (next.itable inum).valid = false))
      fail fs := by
  simp only [dirlookup, wp_bind]
  refine wp_mono during.readInode_spec ?_
  rintro _ middle ⟨rfl, during⟩
  simp only [wp_ite, wp_throw]
  refine ⟨fun _ => others _ (by decide) (by decide), fun isDir => ?_⟩
  rw [not_not] at isDir
  cases found : scanEntries name (tree dp).entries 0 with
  | none => exact ⟨isDir, rfl, during⟩
  | some entry =>
    simp only [wp_bind]
    refine wp_mono (during.iget_spec others) ?_
    intro _ next later
    exact ⟨isDir, rfl, later⟩

omit others in
theorem bmap_spec : wp bmap (fun _ next => During start tree holds pins locks next) fail fs := by
  simp only [bmap, wp_bind, wp_get]
  split
  · exact during
  · simp only [wp_bind, wp_modify, wp_pure]
    exact { during with }

omit others in
theorem appendEntry_spec (entry : Dirent) (found : Bool) :
    wp (appendEntry dp entry found) (fun written next =>
      match written with
      | true => During start (update tree dp
          { tree dp with entries := (tree dp).entries ++ [entry] }) holds pins locks next
      | false => During start tree holds pins locks next) fail fs := by
  simp only [appendEntry, wp_ite, wp_bind, wp_pure]
  exact ⟨fun _ => during.updateInode_spec fun used => used, fun _ => during⟩

omit others in
theorem writei_inside (entry : Dirent) (inside : index < (tree dp).entries.length) :
    wp (writei dp index entry) (fun written next => written = true ∧ During start (update tree dp
        { tree dp with entries := (tree dp).entries.set index entry }) holds
          pins locks next) fail fs := by
  simp only [writei, wp_bind]
  refine wp_mono during.readInode_spec ?_
  rintro _ middle ⟨rfl, during⟩
  rw [if_pos inside]
  simp only [wp_bind, wp_pure]
  refine wp_mono (during.updateInode_spec fun used => used) ?_
  exact fun _ _ later => ⟨trivial, later⟩

omit others in
theorem writei_spec (entry : Dirent) : wp (writei dp ((tree dp).entries.findIdx (·.inum = 0)) entry)
      (fun written next =>
        match written with
        | true => During start (update tree dp
            { tree dp with
              entries := insertEntry entry (tree dp).entries }) holds pins
            locks next
        | false => During start tree holds pins locks next) fail fs := by
  unfold insertEntry
  split
  · next inside =>
      refine wp_mono (during.writei_inside entry inside) ?_
      rintro _ next ⟨rfl, later⟩
      exact later
  · next outside =>
      simp only [writei, wp_bind]
      refine wp_mono during.readInode_spec ?_
      rintro _ middle ⟨rfl, during⟩
      rw [if_neg outside]
      simp only [wp_ite, wp_bind, wp_pure]
      refine ⟨fun _ => during, fun _ => ⟨fun _ => ?_, fun _ => ?_⟩⟩
      · refine wp_mono during.bmap_spec ?_
        exact fun found next during => during.appendEntry_spec entry found
      · exact during.appendEntry_spec entry true

theorem dirlink_spec (inum : Inum) : wp (dirlink dp name inum) (fun linked next =>
      match linked with
      | true => scanEntries name (tree dp).entries 0 = none ∧ During start (update tree dp
            { tree dp with
              entries := insertEntry { inum := inum % 2 ^ 16, name := name.take dirsiz }
                (tree dp).entries }) holds pins locks next
      | false => During start tree holds pins locks next) fail fs := by
  simp only [dirlink, wp_bind]
  refine wp_mono (during.dirlookup_spec others) ?_
  rintro found middle ⟨_, scanned, later⟩
  cases found with
  | none =>
    simp only [wp_bind]
    refine wp_mono later.readInode_spec ?_
    rintro _ next ⟨rfl, during⟩
    refine wp_mono (during.writei_spec _) ?_
    intro written next later
    cases written with
    | true => exact ⟨scanned, later⟩
    | false => exact later
  | some entry =>
    obtain ⟨later, unread⟩ := later
    simp only [wp_bind, wp_pure]
    exact later.iput_keep (during.pinned entry.2) (unread.imp_right .inl)

end Directory

end During

end Xv6Lottery
