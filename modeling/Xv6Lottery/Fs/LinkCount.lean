import Xv6Lottery.Fs.Boot

namespace Xv6Lottery

open LinkGraph During

/-! Link counts. unlink() removes only empty directories, but a process that
holds one can still make entries in it. -/

def Dirent.counts (inum : Inum) (entry : Dirent) : Bool :=
  entry.inum ≠ 0 ∧ entry.name ≠ dot ∧ entry.inum = inum

def Fs.entriesOf (fs : Fs) (inum : Inum) : ℕ :=
  ∑ dp ∈ Finset.range fs.ninodes, if (fs.inode dp).type = .dir then
      (fs.inode dp).entries.countP (Dirent.counts inum)
    else 0

/-- A call makes no entry in an unlinked directory. -/
def Fs.InPlace (fs : Fs) (pid : Slot) : FileCall → Prop
  | .link _ new => ∀ dp name, fs.parent pid new = some (dp, name) → ¬fs.Unlinked dp
  | call => ∀ path kind dp name, call.makes = some (path, kind) →
      fs.parent pid path = some (dp, name) → ¬fs.Unlinked dp

structure Fs.InPlaceStep (fs : Fs) (label : CallLabel) (next : Fs) : Prop where
  step : fs.Step label next
  room : fs.Room label.pid label.call
  inPlace : fs.InPlace label.pid label.call

structure Fs.Tidy (fs : Fs) : Prop where
  settled : Settled fs
  tidy : fs.inode.graph.Tidy (Finset.range fs.ninodes) rootino

theorem Fs.InPlace.parent {fs : Fs} (inPlace : fs.InPlace pid call)
    (made : call.makes = some (path, kind)) (found : fs.parent pid path = some (dp, name)) :
    ¬fs.Unlinked dp := by
  cases call with
  | link => cases made
  | _ => exact inPlace path kind dp name made found

/-! Counting the entries of a directory. -/

theorem countP_inums (used : inum ≠ 0)
    (names : ∀ entry ∈ entries, entry.inum ≠ 0 → entry.name ≠ dot) :
    entries.countP (Dirent.counts inum) = (inums entries).count inum := by
  induction entries with
  | nil => rfl
  | cons entry rest induction =>
    have later := induction fun other member =>
      names other (List.mem_cons_of_mem entry member)
    by_cases empty : entry.inum = 0
    · rw [inums_cons_empty empty, ← later]
      refine List.countP_cons_of_neg ?_
      simp [Dirent.counts, empty]
    · have named := names entry List.mem_cons_self empty
      rw [inums_cons_used empty, List.countP_cons, Multiset.count_cons, later]
      simp [Dirent.counts, empty, named, eq_comm]

theorem Dinode.Shaped.countP_entries {dinode : Dinode} (shaped : dinode.Shaped dp)
    (isDir : dinode.type = .dir) (used : inum ≠ 0) :
    dinode.entries.countP (Dirent.counts inum) =
      (inums (dinode.entries.drop 2)).count inum + if dinode.entries[1]?.map Dirent.inum =
      some inum then 1 else 0 := by
  obtain ⟨above, rest, nonzero, shape, names⟩ := shaped.dir isDir
  have plain := countP_inums used fun entry member inUse =>
    (names entry member inUse).1
  rw [shape, List.countP_cons_of_neg (by simp [Dirent.counts]),
    List.countP_cons, plain]
  have parent : dotdot ≠ dot := by decide
  simp [Dirent.counts, nonzero, parent]

namespace Fs.Tidy

variable {fs next : Fs} {label : CallLabel}

theorem step (tidy : fs.Tidy) (taken : fs.InPlaceStep label next) : next.Tidy := by
  obtain ⟨settled, ninodes, effect⟩ :=
    taken.step.completes tidy.settled taken.room
  have sound := tidy.settled.intact.sound
  have inPlace := taken.inPlace
  refine ⟨settled, ?_⟩
  rw [ninodes]
  obtain ⟨pid, call, space⟩ := label
  generalize next.inode.graph = graph at effect
  cases effect with
  | frees dropped => exact dropped.keeps_tidy sound tidy.tidy
  | attach made parent isDir unused _ _ =>
    refine tidy.tidy.attach sound isDir unused fun detached => ?_
    exact inPlace.parent made parent (tidy.settled.unlinked_iff.mpr detached)
  | link parent isDir leaf =>
    refine tidy.tidy.link sound isDir leaf fun detached => ?_
    exact inPlace _ _ parent (tidy.settled.unlinked_iff.mpr detached)
  | unlink _ _ link empty => exact tidy.tidy.unlink sound link empty _

theorem run (wellFormed : start.WellFormed) (taken : Transition.Run InPlaceStep start labels fs) :
    fs.Tidy :=
  taken.invariant Fs.Tidy ⟨wellFormed.settled, wellFormed.tidy⟩ fun tidy taken => tidy.step taken

theorem placed (tidy : fs.Tidy) (released : ∀ inum ∈ fs.holders, ¬fs.Unlinked inum) (dir : Inum) :
    ¬fs.inode.graph.Detached (Finset.range fs.ninodes) rootino dir := by
  intro detached
  have intact := tidy.settled.intact
  have used : (fs.inode dir).type ≠ .free := by
    rw [FileType.kind_eq_dir.mp detached.1]
    nofun
  have total := intact.sound.dir_count detached.1
  rw [detached.2.2, DirGraph.subdirs, tidy.tidy.empty detached,
    Multiset.countP_zero, if_neg detached.2.1] at total
  exact released dir (intact.retained dir used ((Tree.nlink_eq_zero used).mpr total))
    (tidy.settled.unlinked_iff.mpr detached)

theorem entriesOf_eq (tidy : fs.Tidy) (used : inum ≠ 0) :
    fs.entriesOf inum = fs.inode.graph.named (Finset.range fs.ninodes) inum +
      ((Finset.range fs.ninodes).filter fun dir => fs.inode.graph.kind dir = .dir ∧
        fs.inode.graph.up dir = some inum).card := by
  have intact := tidy.settled.intact
  unfold Fs.entriesOf DirGraph.named
  rw [Finset.card_filter, ← Finset.sum_add_distrib]
  refine Finset.sum_congr rfl fun dp _ => ?_
  by_cases isDir : (fs.inode dp).type = .dir
  · rw [if_pos isDir, (intact.shaped.each dp).countP_entries isDir used]
    congr 1
    exact if_congr (and_iff_right (Tree.kind_dir isDir)).symm rfl rfl
  · have bare := intact.sound.bare (FileType.kind_eq_dir.not.mpr isDir)
    have notDir : ¬(fs.inode.graph.kind dp = .dir ∧ fs.inode.graph.up dp = some inum) :=
      fun both => isDir (FileType.kind_eq_dir.mp both.1)
    rw [if_neg isDir, bare, Multiset.count_zero, if_neg notDir]

theorem nlink_eq (tidy : fs.Tidy) (released : ∀ inum ∈ fs.holders, ¬fs.Unlinked inum)
    (used : (fs.inode inum).type ≠ .free) : (fs.inode inum).nlink.toNat = fs.entriesOf inum := by
  have intact := tidy.settled.intact
  have placed := tidy.placed released
  rw [tidy.entriesOf_eq (intact.ne_zero used), ← Tree.graph_count used]
  by_cases isDir : (fs.inode inum).type = .dir
  · exact intact.sound.dir_count_eq placed (Tree.kind_dir isDir)
  · have leaf := Tree.kind_leaf used isDir
    -- No directory has a file as its "..".
    have none : ((Finset.range fs.ninodes).filter fun dir =>
        fs.inode.graph.kind dir = .dir ∧ fs.inode.graph.up dir = some inum) = ∅ := by
      refine Finset.filter_eq_empty_iff.mpr ?_
      rintro dir _ ⟨dirKind, up⟩
      obtain ⟨parent, points, parentDir⟩ := intact.sound.up_dir dirKind
        fun detached => absurd detached (placed dir)
      cases up.symm.trans points
      cases leaf.symm.trans parentDir
    rw [none, Finset.card_empty, Nat.add_zero]
    exact (tidy.tidy.leaf_exact leaf).symm

end Fs.Tidy

/-- While no entry is made in an unlinked directory, no process holds one and
link counts stay below 2^15, inodes in use that nothing refers to have links,
and every link count is the number of entries that name the inode. -/
theorem link_counts_exact {start fs : Fs} {labels : List CallLabel}
    (wellFormed : start.WellFormed) (run : Transition.Run Fs.InPlaceStep start labels fs)
    (released : ∀ inum ∈ fs.holders, ¬fs.Unlinked inum) :
    (∀ inum, (fs.inode inum).type ≠ .free → inum ∉ fs.holders → 1 ≤ (fs.inode inum).nlink.toInt) ∧
      ∀ inum, (fs.inode inum).type ≠ .free → (fs.inode inum).nlink.toInt = fs.entriesOf inum := by
  have tidy := Fs.Tidy.run wellFormed run
  have intact := tidy.settled.intact
  refine ⟨?_, ?_⟩
  · intro inum used unheld
    rw [intact.toInt_nlink used]
    have linked : (fs.inode inum).nlink ≠ 0 :=
      fun zero => unheld (intact.retained inum used zero)
    rw [ne_eq, ← BitVec.toNat_inj] at linked
    exact_mod_cast Nat.one_le_iff_ne_zero.mpr linked
  · intro inum used
    rw [intact.toInt_nlink used, tidy.nlink_eq released used]

theorem made_dir_counts_exact :
    Transition.Run Fs.InPlaceStep bareFs [byInit (.mkdir pathA)] madeFs ∧
      (madeFs.inode rootino).nlink.toInt = 2 ∧ madeFs.entriesOf rootino = 2 ∧ ∀ inum,
      (madeFs.inode inum).type ≠ .free → (madeFs.inode inum).nlink.toInt =
      madeFs.entriesOf inum := by
  have inPlace : bareFs.InPlaceStep (byInit (.mkdir pathA)) madeFs := by
    refine ⟨madeFs_step, madeFs_room, ?_⟩
    exact fun _ _ dp _ _ _ => bareFs_wellFormed.placed dp
  have run := Transition.Run.single inPlace
  have released : ∀ inum ∈ madeFs.holders, ¬madeFs.Unlinked inum := by
    have root : madeFs.holders = {rootino} := by
      decide +kernel
    rw [root]
    intro inum member unlinked
    exact unlinked.2.1 (Multiset.mem_singleton.mp member)
  exact ⟨run, by decide +kernel, by decide +kernel,
    (link_counts_exact bareFs_wellFormed run released).2⟩

/-! initproc removes its current directory, makes a file in it and leaves. The
directory is freed with the entry in it, and the file keeps its link. -/

def leakLabels : List CallLabel :=
  [byInit (.mkdir pathA), byInit (.chdir pathA), byInit (.unlink pathA),
    byInit (.open ['f'] oCreate), byInit (.close 0), byInit (.chdir ['/'])]

def leakedFs : Fs := (bareFs.performAll leakLabels).getD bareFs

theorem leaked_file_keeps_link :
    bareFs.WellFormed ∧ Transition.Run Fs.Step bareFs leakLabels leakedFs ∧ leakedFs.holders =
      {rootino} ∧ (leakedFs.inode 3).type = .file ∧ (leakedFs.inode 3).nlink = 1 ∧
      leakedFs.entriesOf 3 = 0 := by
  have returns : (bareFs.performAll leakLabels).isSome = true := by
    decide +kernel
  refine ⟨bareFs_wellFormed, ?_, by decide +kernel, by decide +kernel,
    by decide +kernel, by decide +kernel⟩
  obtain ⟨fs, performed⟩ := Option.isSome_iff_exists.mp returns
  rw [leakedFs, performed]
  exact Fs.performAll_run performed

end Xv6Lottery
