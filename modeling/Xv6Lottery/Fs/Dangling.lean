import Xv6Lottery.Fs.Boot

namespace Xv6Lottery

open Outcome.Prog LinkGraph During

/-! Directory entries that dangle. An unlinked directory that is still held
keeps its "..", and nothing counts that entry. -/

/-- When unlink() removes a directory, no other unlinked directory has it as
its "..", and if the directory is held then its parent is not itself
unlinked. -/
def Fs.Careful (fs : Fs) (pid : Slot) : FileCall → Prop
  | .unlink path => ∀ dp name index ip, fs.parent pid path = some (dp, name) →
      scanEntries name (fs.inode dp).entries 0 = some (index, ip) → (fs.inode ip).type = .dir →
      (∀ other, other ≠ ip → fs.Unlinked other →
        (fs.inode other).entries[1]?.map Dirent.inum ≠ some ip) ∧
      (ip ∈ fs.holders → ¬fs.Unlinked dp)
  | _ => True

structure Fs.CarefulStep (fs : Fs) (label : CallLabel) (next : Fs) : Prop where
  step : fs.Step label next
  room : fs.Room label.pid label.call
  careful : fs.Careful label.pid label.call

structure Fs.Anchored (fs : Fs) : Prop where
  settled : Settled fs
  anchored : ∀ dir, fs.inode.graph.Anchored (Finset.range fs.ninodes) rootino dir

theorem Fs.WellFormed.anchored {fs : Fs} (wellFormed : fs.WellFormed) : fs.Anchored := by
  refine ⟨wellFormed.settled, fun dir detached => ?_⟩
  exact absurd (wellFormed.settled.unlinked_iff.mpr detached) (wellFormed.placed dir)

namespace Fs.Anchored

variable {fs next : Fs} {label : CallLabel}

theorem step (anchored : fs.Anchored) (taken : fs.CarefulStep label next) : next.Anchored := by
  obtain ⟨settled, ninodes, effect⟩ :=
    taken.step.completes anchored.settled taken.room
  have sound := anchored.settled.intact.sound
  have careful := taken.careful
  refine ⟨settled, fun dir => ?_⟩
  rw [ninodes]
  obtain ⟨pid, call, space⟩ := label
  generalize next.inode.graph = graph at effect
  cases effect with
  | frees dropped => exact dropped.keeps_anchored sound (anchored.anchored dir)
  | attach _ _ isDir unused _ _ =>
    exact (anchored.anchored dir).attach sound isDir unused
  | link _ isDir leaf => exact (anchored.anchored dir).link sound isDir leaf
  | @unlink path dp name index ip parent found link empty =>
    have spare := careful dp name index ip parent found
    by_cases same : dir = ip
    · rw [same]
      refine DirGraph.anchored_unlinked sound link empty fs.holders ?_
      intro held isDir detached
      exact (spare (FileType.kind_eq_dir.mp isDir)).2 held
        (anchored.settled.unlinked_iff.mpr detached)
    · refine (anchored.anchored dir).unlink sound link empty fs.holders same ?_
      intro detached isDir
      exact (spare (FileType.kind_eq_dir.mp isDir)).1 dir same
        (anchored.settled.unlinked_iff.mpr detached)

theorem run (wellFormed : start.WellFormed) (taken : Transition.Run CarefulStep start labels fs) :
    fs.Anchored :=
  taken.invariant Fs.Anchored wellFormed.anchored fun anchored taken => anchored.step taken

theorem not_dangling (anchored : fs.Anchored) : ¬Dangling fs.inode := by
  rintro ⟨dp, entry, isDir, member, used, free⟩
  have intact := anchored.settled.intact
  have kind : fs.inode.graph.kind dp = .dir := Tree.kind_dir isDir
  have freeKind : fs.inode.graph.kind entry.inum = .free :=
    FileType.kind_eq_free.mpr free
  obtain ⟨above, rest, _, shape, _⟩ := (intact.shaped.each dp).dir isDir
  rw [shape] at member
  rcases List.mem_cons.mp member with rfl | member
  · cases isDir.symm.trans free
  rcases List.mem_cons.mp member with rfl | member
  · obtain ⟨parent, up, parentDir⟩ :=
      intact.sound.up_dir kind (anchored.anchored dp)
    have named : fs.inode.graph.up dp = some above := by
      change (fs.inode dp).entries[1]?.map Dirent.inum = some above
      rw [shape]
      rfl
    cases named.symm.trans up
    cases freeKind.symm.trans parentDir
  · have link : entry.inum ∈ fs.inode.graph.links dp := by
      change entry.inum ∈ inums ((fs.inode dp).entries.drop 2)
      rw [shape]
      exact mem_inums.mpr ⟨used, entry, member, rfl⟩
    exact intact.sound.linked link freeKind

end Fs.Anchored

/-- In every run whose calls are careful every entry in use names an inode in
use, and no lookup stops at "ilock: no type". -/
theorem no_dangling_entries {start fs : Fs} {labels : List CallLabel}
    (wellFormed : start.WellFormed) (run : Transition.Run Fs.CarefulStep start labels fs) :
    (∀ dp entry, (fs.inode dp).type = .dir → entry ∈ (fs.inode dp).entries → entry.inum ≠ 0 →
      (fs.inode entry.inum).type ≠ .free) ∧ (∀ pid path nameiparent,
      (namex pid path nameiparent).run fs ≠ .error .ilockNoType) ∧
    ∀ label : CallLabel, fs.Room label.pid label.call →
      (∀ child, label.call = .fork child → (fs.proc child).cwd = none) →
      (label.call.exec label.pid).run { fs with space := label.space } ≠ .error .ilockNoType := by
  have anchored := Fs.Anchored.run wellFormed run
  have settled := anchored.settled
  have sound := anchored.not_dangling
  refine ⟨?_, ?_, ?_⟩
  · intro dp entry isDir member used free
    exact sound ⟨dp, entry, isDir, member, used, free⟩
  · intro pid path nameiparent failed
    have holds : wp (namex pid path nameiparent) _ (· ≠ .ilockNoType) fs :=
      settled.namex_spec (fun _ other _ => other)
        (fun dangling => absurd dangling sound) (fun _ => rfl)
        (fun _ => rfl) settled.intact.retained settled.during nameiparent path
    exact wp_error holds failed rfl
  · exact fun label room unused => settled.no_panic sound room unused

/-! initproc removes the directory that it made. -/

def removedFs : Fs := (madeFs.perform (byInit (.unlink pathA))).getD madeFs

theorem made_careful : bareFs.CarefulStep (byInit (.mkdir pathA)) madeFs :=
  ⟨madeFs_step, madeFs_room, trivial⟩

theorem removed_careful : madeFs.CarefulStep (byInit (.unlink pathA)) removedFs := by
  have settled :=
    (madeFs_step.completes bareFs_wellFormed.settled madeFs_room).settled
  refine ⟨perform_getD (by decide +kernel), trivial, ?_⟩
  intro dp name index ip parent found _
  have above : madeFs.parent initproc pathA = some (rootino, ['a']) := by
    decide +kernel
  cases above.symm.trans parent
  have entry : scanEntries ['a'] (madeFs.inode rootino).entries 0 = some (2, 2) := by
    decide +kernel
  cases entry.symm.trans found
  refine ⟨?_, fun _ unlinked => unlinked.2.1 rfl⟩
  rintro other differs ⟨isDir, notRoot, _⟩
  have inside : other < madeFs.ninodes :=
    settled.intact.lt_ninodes (by rw [isDir]; nofun)
  have dirs : ∀ other < madeFs.ninodes, (madeFs.inode other).type = .dir →
      other = rootino ∨ other = 2 := by
    decide +kernel
  exact ((dirs other inside isDir).elim notRoot differs).elim

theorem removed_dir_leaves_none_dangling :
    Transition.Run Fs.CarefulStep bareFs [byInit (.mkdir pathA), byInit (.unlink pathA)] removedFs ∧
      (removedFs.inode 2).type = .free ∧ ∀ dp entry, (removedFs.inode dp).type = .dir →
      entry ∈ (removedFs.inode dp).entries → entry.inum ≠ 0 → (removedFs.inode entry.inum).type ≠
      .free := by
  have run : Transition.Run Fs.CarefulStep bareFs
      [byInit (.mkdir pathA), byInit (.unlink pathA)] removedFs :=
    (Transition.Run.single made_careful).trans (.single removed_careful)
  exact ⟨run, by decide +kernel,
    (no_dangling_entries bareFs_wellFormed run).1⟩

/-! initproc makes /a/b its current directory and removes /a/b and /a. The
entry ".." of its current directory then names a free inode. -/

def strandLabels : List CallLabel :=
  [byInit (.mkdir pathA), byInit (.mkdir (pathA ++ ['/', 'b'])),
    byInit (.chdir (pathA ++ ['/', 'b'])),
    byInit (.unlink (pathA ++ ['/', 'b'])), byInit (.unlink pathA)]

def strandedFs : Fs := (bareFs.performAll strandLabels).getD bareFs

theorem strandedFs_run : Transition.Run Fs.Step bareFs strandLabels strandedFs := by
  have returns : (bareFs.performAll strandLabels).isSome = true := by
    decide +kernel
  obtain ⟨fs, performed⟩ := Option.isSome_iff_exists.mp returns
  rw [strandedFs, performed]
  exact Fs.performAll_run performed

theorem stranded_cwd_dangles : bareFs.WellFormed ∧
      Transition.Run Fs.Step bareFs strandLabels strandedFs ∧
      (strandedFs.proc initproc).cwd = some 3 ∧ (strandedFs.inode 3).type = .dir ∧
      { inum := 2, name := dotdot } ∈ (strandedFs.inode 3).entries ∧
      (strandedFs.inode 2).type = .free ∧
      (sysChdir initproc dotdot).run strandedFs = .error .ilockNoType := by
  have stops : (match (sysChdir initproc dotdot).run strandedFs with
      | .error reason => decide (reason = .ilockNoType)
      | .ok _ => false) = true := by
    decide +kernel
  refine ⟨bareFs_wellFormed, strandedFs_run, by decide +kernel,
    by decide +kernel, by decide +kernel, by decide +kernel, ?_⟩
  split at stops
  · next reason ran =>
      rw [ran, of_decide_eq_true stops]
  · cases stops

end Xv6Lottery
