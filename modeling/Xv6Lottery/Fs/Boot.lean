import Xv6Lottery.Fs.Effect
import Xv6Lottery.Lib.Transition

namespace Xv6Lottery

open LinkGraph During

/-- A directory in use that no entry but "." and ".." names any more. -/
def Fs.Unlinked (fs : Fs) (inum : Inum) : Prop :=
  (fs.inode inum).type = .dir ∧ inum ≠ rootino ∧ ∀ dp, inum ∉ inums ((fs.inode dp).entries.drop 2)

/-- The state userinit() leaves: a well-formed disk, and one process whose
current directory is the root. -/
structure Fs.WellFormed (fs : Fs) : Prop where
  bound : fs.ninodes ≤ 2 ^ 16
  shaped : fs.inode.Shaped
  sound : fs.inode.graph.Sound (Finset.range fs.ninodes) rootino
  tidy : fs.inode.graph.Tidy (Finset.range fs.ninodes) rootino
  small : ∀ inum, (fs.inode inum).type ≠ .free → (fs.inode inum).nlink.toNat < 2 ^ 15
  linked : ∀ inum, (fs.inode inum).type ≠ .free → (fs.inode inum).nlink ≠ 0
  placed : ∀ inum, ¬fs.Unlinked inum
  cwd : ∀ pid, (fs.proc pid).cwd = if pid = initproc then some rootino else none
  closed : ∀ f, fs.ftable f = { ref := 0, ip := none }
  itable : ∀ inum, fs.itable inum =
    { ref := if inum = rootino then 1 else 0, valid := false, locked := false }

theorem Settled.unlinked_iff (settled : Settled fs) :
    fs.Unlinked inum ↔ fs.inode.graph.Detached (Finset.range fs.ninodes) rootino inum := by
  unfold Fs.Unlinked DirGraph.Detached
  rw [DirGraph.named_eq_zero]
  refine and_congr FileType.kind_eq_dir.symm (and_congr_right fun _ => ?_)
  refine ⟨fun absent dp _ => absent dp, fun absent dp link => ?_⟩
  exact absent dp (settled.intact.sound.mem_of_link link) link

theorem Fs.WellFormed.holders {fs : Fs} (wellFormed : fs.WellFormed) : fs.holders = {rootino} := by
  have dirs : currentDirs fs.proc = {rootino} := by
    unfold currentDirs
    rw [Finset.sum_eq_single initproc]
    · rw [wellFormed.cwd, if_pos rfl]
      rfl
    · intro pid _ other
      rw [wellFormed.cwd, if_neg other]
      rfl
    · exact fun absent => absurd (Finset.mem_univ _) absent
  have files : openInodes fs.ftable = 0 := by
    unfold openInodes
    refine Finset.sum_eq_zero fun f _ => ?_
    rw [wellFormed.closed]
    rfl
  unfold Fs.holders
  rw [dirs, files, add_zero]

theorem Fs.WellFormed.settled {fs : Fs} (wellFormed : fs.WellFormed) : Settled fs := by
  have holders := wellFormed.holders
  have root : (fs.inode rootino).type ≠ .free := by
    intro free
    cases wellFormed.sound.root_dir.symm.trans (congrArg FileType.kind free)
  have unlocked : ∀ inum, (fs.itable inum).locked = false :=
    fun inum => by rw [wellFormed.itable]
  refine ⟨⟨wellFormed.bound, wellFormed.shaped, wellFormed.sound, wellFormed.small, ?_, ?_⟩, ?_, ?_⟩
  · rw [holders]
    intro inum member
    rw [Multiset.mem_singleton.mp member]
    exact root
  · exact fun inum used unlinked =>
      absurd unlinked (wellFormed.linked inum used)
  · intro f _
    rw [wellFormed.closed]
  · rw [holders]
    exact {
      ninodes := rfl
      ftable := rfl
      proc := rfl
      inode := rfl
      ref := by
        intro inum
        rw [wellFormed.itable, add_zero, Multiset.count_singleton]
      live := by
        intro inum _ valid
        rw [wellFormed.itable] at valid
        cases valid
      kept := fun inum member notRoot =>
        absurd (Multiset.mem_singleton.mp member) notRoot
      locked := fun inum => by simp [unlocked inum]
      valid := fun _ => nofun
      pinned := fun _ => nofun }

/-! Runs of calls by evaluation. -/

def FileCall.spare (fs : Fs) : FileCall → Bool
  | .fork child => (fs.proc child).cwd = none
  | _ => true

def Fs.perform (fs : Fs) (label : CallLabel) : Option Fs :=
  if (fs.proc label.pid).cwd ≠ none ∧ label.call.spare fs then
    match (label.call.exec label.pid).run { fs with space := label.space } with
    | .ok (_, next) => some next
    | .error _ => none
  else none

def Fs.performAll (fs : Fs) : List CallLabel → Option Fs
  | [] => some fs
  | label :: rest => (fs.perform label).bind (·.performAll rest)

theorem Fs.perform_step {fs next : Fs} (performed : fs.perform label = some next) :
    fs.Step label next := by
  unfold Fs.perform at performed
  split at performed
  · next possible =>
      refine ⟨possible.1, fun child forks => ?_, ?_⟩
      · have spare := possible.2
        rw [forks] at spare
        simpa [FileCall.spare] using spare
      · split at performed
        · next value final ran =>
            cases performed
            exact ⟨value, ran⟩
        · cases performed
  · cases performed

theorem Fs.performAll_run (performed : fs.performAll labels = some next) :
    Transition.Run Fs.Step fs labels next := by
  induction labels generalizing fs with
  | nil =>
    cases performed
    exact .refl
  | cons label rest induction =>
    obtain ⟨middle, first, later⟩ := Option.bind_eq_some_iff.mp performed
    exact (Transition.Run.single (Fs.perform_step first)).trans (induction later)

/-! The smallest file system: a root directory and nothing else. -/

def bareFs : Fs where
  ninodes := 10
  inode inum :=
    if inum = rootino then
      { type := .dir, major := 0, minor := 0, nlink := 1
        entries := [{ inum := rootino, name := dot }, { inum := rootino, name := dotdot }] }
    else { type := .free, major := 0, minor := 0, nlink := 0, entries := [] }
  itable inum :=
    { ref := if inum = rootino then 1 else 0, valid := false, locked := false }
  ftable _ := { ref := 0, ip := none }
  proc pid :=
    { cwd := if pid = initproc then some rootino else none
      ofile := fun _ => none }
  space := []

theorem bareFs_links (inum : Inum) : bareFs.inode.graph.links inum = 0 := by
  change inums ((bareFs.inode inum).entries.drop 2) = 0
  unfold bareFs
  dsimp only
  split <;> rfl

theorem bareFs_named (inum : Inum) : bareFs.inode.graph.named (Finset.range 10) inum = 0 := by
  rw [DirGraph.named_eq_zero]
  intro dp _
  rw [bareFs_links]
  exact Multiset.notMem_zero _

theorem bareFs_root (used : (bareFs.inode inum).type ≠ .free) : inum = rootino := by
  by_contra other
  refine used ?_
  unfold bareFs
  dsimp only
  rw [if_neg other]

theorem bareFs_wellFormed : bareFs.WellFormed := by
  have top : ∀ inum, bareFs.inode.graph.kind inum ≠ .free → inum = rootino :=
    fun _ used => bareFs_root fun free => used (FileType.kind_eq_free.mpr free)
  refine ⟨by decide, ⟨rfl, ?_⟩, ?_, ?_, ?_, ?_, ?_, fun _ => rfl,
    fun _ => rfl, fun _ => rfl⟩
  · intro inum
    by_cases root : inum = rootino
    · subst root
      exact ⟨fun _ => ⟨rootino, [], by decide, rfl, by rintro _ ⟨⟩⟩,
        fun notDir => absurd rfl notDir⟩
    · have free : bareFs.inode inum = _ := if_neg root
      rw [free]
      exact ⟨by rintro ⟨⟩, fun _ => rfl⟩
  · exact {
      root_dir := rfl
      root_up := rfl
      root_named := bareFs_named rootino
      mem_nodes := by
        intro inum used
        rw [top inum used]
        decide
      bare := fun _ => bareFs_links _
      linked := by
        intro dir inum link
        rw [bareFs_links] at link
        exact absurd link (Multiset.notMem_zero _)
      child := by
        intro dir inum link
        rw [bareFs_links] at link
        exact absurd link (Multiset.notMem_zero _)
      dir_count := by
        intro inum isDir
        obtain rfl := top inum (by rw [isDir]; rintro ⟨⟩)
        change _ = bareFs.inode.graph.named (Finset.range 10) rootino + _ + _
        rw [bareFs_named, DirGraph.subdirs, bareFs_links]
        rfl
      leaf_count := by
        intro inum leaf
        obtain rfl := top inum (by rw [leaf]; rintro ⟨⟩)
        cases leaf }
  · refine ⟨fun _ => bareFs_links _, fun {inum} leaf => ?_⟩
    obtain rfl := top inum (by rw [leaf]; rintro ⟨⟩)
    cases leaf
  · intro inum used
    rw [bareFs_root used]
    decide
  · intro inum used
    rw [bareFs_root used]
    decide
  · rintro inum ⟨isDir, notRoot, _⟩
    exact notRoot (bareFs_root (by rw [isDir]; rintro ⟨⟩))

/-! initproc makes a directory. -/

def byInit (call : FileCall) : CallLabel :=
  { pid := initproc, call := call, space := [] }

def pathA : Path := ['/', 'a']

def madeFs : Fs := (bareFs.perform (byInit (.mkdir pathA))).getD bareFs

theorem perform_getD {fs other : Fs} (returns : (fs.perform label).isSome = true) :
    fs.Step label ((fs.perform label).getD other) := by
  obtain ⟨next, performed⟩ := Option.isSome_iff_exists.mp returns
  rw [performed]
  exact Fs.perform_step performed

theorem madeFs_step : bareFs.Step (byInit (.mkdir pathA)) madeFs :=
  perform_getD (by decide +kernel)

theorem madeFs_room : bareFs.Room initproc (.mkdir pathA) := by
  intro dp name parent
  have found : bareFs.parent initproc pathA = some (rootino, ['a']) := by
    decide +kernel
  cases found.symm.trans parent
  decide

end Xv6Lottery
