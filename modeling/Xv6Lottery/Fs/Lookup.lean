import Xv6Lottery.Fs.Pins

namespace Xv6Lottery

open Outcome.Prog

/-! Path lookup without the inode table: what namex() reads in the tree. -/

theorem scanEntries_some (found : scanEntries name entries start = some (index, inum)) :
    inum ≠ 0 ∧ start ≤ index ∧ ∃ entry, entries[index - start]? = some entry ∧ entry.inum = inum ∧
      namecmp name entry.name = true := by
  induction entries generalizing start with
  | nil => cases found
  | cons entry rest induction =>
    have later : scanEntries name rest (start + 1) = some (index, inum) →
        inum ≠ 0 ∧ start ≤ index ∧ ∃ found, (entry :: rest)[index - start]? = some found ∧
            found.inum = inum ∧ namecmp name found.name = true := by
      intro found
      obtain ⟨used, bound, entry, place, same, named⟩ := induction found
      refine ⟨used, by omega, entry, ?_, same, named⟩
      rw [show index - start = index - (start + 1) + 1 by omega]
      exact place
    rw [scanEntries] at found
    split at found
    · exact later found
    · next used =>
        split at found
        · next named =>
            cases found
            exact ⟨used, Nat.le_refl _, entry, by simp, rfl, named⟩
        · exact later found

theorem scanEntries_none (absent : scanEntries name entries start = none)
    (member : entry ∈ entries) (used : entry.inum ≠ 0) : namecmp name entry.name ≠ true := by
  induction entries generalizing start with
  | nil => cases member
  | cons first rest induction =>
    rw [scanEntries] at absent
    rcases List.mem_cons.mp member with rfl | later
    · rw [if_neg used] at absent
      intro named
      rw [if_pos named] at absent
      cases absent
    · split at absent
      · exact induction absent later
      · split at absent
        · cases absent
        · exact induction absent later

def Tree.resolve (tree : Tree) (nameiparent : Bool) :
    Nat → Inum → Path → Name → Option (Inum × Name)
  | 0, ip, _, name => if nameiparent then none else some (ip, name)
  | rounds + 1, ip, path, name =>
    match skipelem path with
    | none => if nameiparent then none else some (ip, name)
    | some (rest, element) =>
      if (tree ip).type ≠ .dir then none
      else if nameiparent = true ∧ rest = [] then some (ip, element)
      else
        match scanEntries element (tree ip).entries 0 with
        | none => none
        | some (_, next) =>
          tree.resolve nameiparent rounds next rest element

def Fs.origin (fs : Fs) (pid : Slot) (path : Path) : Option Inum :=
  if path.head? = some '/' then some rootino else (fs.proc pid).cwd

def Fs.target (fs : Fs) (pid : Slot) (path : Path) : Option Inum :=
  (fs.origin pid path).bind fun ip =>
    (fs.inode.resolve false path.length ip path []).map Prod.fst

/-- What nameiparent() finds: the directory and the last element. -/
def Fs.parent (fs : Fs) (pid : Slot) (path : Path) : Option (Inum × Name) :=
  (fs.origin pid path).bind fun ip =>
    fs.inode.resolve true path.length ip path []

theorem Tree.resolve_congr {tree other : Tree}
    (type : ∀ inum, (other inum).type = (tree inum).type)
    (entries : ∀ inum, (other inum).entries = (tree inum).entries) (nameiparent : Bool)
    (rounds : Nat) (ip : Inum) (path : Path) (name : Name) :
    other.resolve nameiparent rounds ip path name =
      tree.resolve nameiparent rounds ip path name := by
  induction rounds generalizing ip path name with
  | zero => rfl
  | succ rounds induction =>
    simp only [resolve, type, entries, induction]

namespace During

variable {start fs : Fs} {tree : Tree} {holds pins : Multiset Inum} {fail : Panic → Prop}

/-- An entry in use that names a free inode is the way to the panic of
ilock(). -/
def Dangling (tree : Tree) : Prop :=
  ∃ dp entry, (tree dp).type = .dir ∧ entry ∈ (tree dp).entries ∧
    entry.inum ≠ 0 ∧ (tree entry.inum).type = .free

section Lookup

variable (others : ∀ reason, reason ≠ .ilockNoType → reason ≠ .unlinkNlink → fail reason)
  (retained : Retained tree holds) (dangling : Dangling tree → fail .ilockNoType)

include others retained

theorem namexEnd_spec (during : During start tree holds (ip ::ₘ pins) ∅ fs)
    (nameiparent : Bool) (name : Name) (typed : (tree ip).type = .free → fail .ilockNoType) :
    wp (namexEnd nameiparent ip name) (fun found next =>
      (if nameiparent then none else some (ip, name)) = found ∧
      match found with
      | none => During start tree holds pins ∅ next
      | some (inum, _) => During start tree holds (inum ::ₘ pins) ∅ next ∧
          ((tree inum).type = .free → fail .ilockNoType) ∧
          (nameiparent = true → (tree inum).type = .dir)) fail fs := by
  cases nameiparent with
  | true =>
    simp only [namexEnd, if_pos, wp_bind, wp_pure]
    refine wp_mono (during.iput_quiet retained (Set.notMem_empty ip)) ?_
    exact fun _ _ later => ⟨trivial, later⟩
  | false => exact ⟨rfl, during, typed, by rintro ⟨⟩⟩

include dangling

theorem namexLoop_spec (nameiparent : Bool) (rounds : Nat)
    (during : During start tree holds (ip ::ₘ pins) ∅ fs) (path : Path)
    (name : Name) (typed : (tree ip).type = .free → fail .ilockNoType) :
    wp (namexLoop nameiparent rounds ip path name) (fun found next =>
      tree.resolve nameiparent rounds ip path name = found ∧
      match found with
      | none => During start tree holds pins ∅ next
      | some (inum, _) => During start tree holds (inum ::ₘ pins) ∅ next ∧
          ((tree inum).type = .free → fail .ilockNoType) ∧
          (nameiparent = true → (tree inum).type = .dir)) fail fs := by
  induction rounds generalizing ip path name fs with
  | zero => exact during.namexEnd_spec others retained nameiparent name typed
  | succ rounds induction =>
    rw [namexLoop, Tree.resolve]
    cases skipelem path with
    | none =>
      exact during.namexEnd_spec others retained nameiparent name typed
    | some split =>
      obtain ⟨rest, element⟩ := split
      simp only [wp_bind]
      refine wp_mono (during.ilock_spec others (Multiset.mem_cons_self ..) typed) ?_
      rintro _ middle ⟨locked, _⟩
      refine wp_mono locked.readInode_spec ?_
      rintro _ middle ⟨rfl, locked⟩
      by_cases isDir : (tree ip).type = .dir
      · rw [if_neg (not_not.mpr isDir), if_neg (not_not.mpr isDir)]
        by_cases last : nameiparent = true ∧ rest = []
        · rw [if_pos last, if_pos last]
          simp only [wp_bind, wp_pure]
          refine wp_mono (locked.iunlock_spec others) ?_
          rintro _ next ⟨unlocked, _⟩
          rw [unlock_one] at unlocked
          exact ⟨trivial, unlocked, typed, fun _ => isDir⟩
        · rw [if_neg last, if_neg last]
          simp only [wp_bind]
          refine wp_mono (locked.dirlookup_spec others) ?_
          rintro found middle ⟨_, scanned, looked⟩
          rw [scanned]
          cases found with
          | none =>
            simp only [wp_bind, wp_pure]
            refine wp_mono (looked.iunlockput_quiet others retained) ?_
            intro _ next unlocked
            rw [unlock_one] at unlocked
            exact ⟨trivial, unlocked⟩
          | some hit =>
            obtain ⟨looked, _⟩ := looked
            rw [Multiset.cons_swap] at looked
            simp only [wp_bind]
            refine wp_mono (looked.iunlockput_quiet others retained) ?_
            intro _ next unlocked
            rw [unlock_one] at unlocked
            obtain ⟨used, _, entry, place, same, _⟩ :=
              scanEntries_some scanned
            refine induction unlocked rest element fun unused => ?_
            exact dangling ⟨ip, entry, isDir,
              List.mem_of_getElem? place, same ▸ used, same ▸ unused⟩
      · rw [if_pos isDir, if_pos isDir]
        simp only [wp_bind, wp_pure]
        refine wp_mono (locked.iunlockput_quiet others retained) ?_
        intro _ next unlocked
        rw [unlock_one] at unlocked
        exact ⟨trivial, unlocked⟩

theorem namex_spec (during : During start tree holds pins ∅ fs) (nameiparent : Bool)
    (path : Path) (root : (tree rootino).type ≠ .free)
    (alive : ∀ cwd, (start.proc pid).cwd = some cwd → cwd ∈ holds ∧ (tree cwd).type ≠ .free) :
    wp (namex pid path nameiparent) (fun found next =>
      ((start.origin pid path).bind fun ip =>
        tree.resolve nameiparent path.length ip path []) = found ∧
      match found with
      | none => During start tree holds pins ∅ next
      | some (inum, _) => During start tree holds (inum ::ₘ pins) ∅ next ∧
          ((tree inum).type = .free → fail .ilockNoType) ∧
          (nameiparent = true → (tree inum).type = .dir)) fail fs := by
  unfold Fs.origin
  simp only [namex, namexStart, wp_bind, wp_ite, wp_get, wp_pure]
  refine ⟨fun absolute => ?_, fun relative => ?_⟩
  · rw [if_pos absolute]
    refine wp_mono (during.iget_spec others) ?_
    rintro _ middle ⟨later, _⟩
    exact later.namexLoop_spec others retained dangling nameiparent
      path.length path [] fun unused => absurd unused root
  · rw [if_neg relative, during.proc]
    cases cwd : (start.proc pid).cwd with
    | none => exact others _ (by decide) (by decide)
    | some ip =>
      obtain ⟨held, used⟩ := alive ip cwd
      simp only [wp_bind, wp_pure]
      refine wp_mono (during.idup_spec (Multiset.mem_add.mpr (.inl held))) ?_
      intro _ middle later
      exact later.namexLoop_spec others retained dangling nameiparent
        path.length path [] fun unused => absurd unused used

end Lookup

end During

end Xv6Lottery
