import Xv6Lottery.Fs.Lookup
import Xv6Lottery.Lib.LinkGraph

namespace Xv6Lottery

open LinkGraph During

/-! The directory tree as a graph of links. The first two entries of a
directory are "." and ".."; the others are its links. -/

def FileType.kind : FileType → Kind
  | .free => .free
  | .dir => .dir
  | .file | .device => .leaf

def inums (entries : List Dirent) : Multiset Inum :=
  ((entries.map Dirent.inum).filter (· ≠ 0) : List Inum)

def Tree.graph (tree : Tree) : DirGraph Inum where
  kind inum := (tree inum).type.kind
  links inum := inums ((tree inum).entries.drop 2)
  up inum := (tree inum).entries[1]?.map Dirent.inum
  count inum :=
    if (tree inum).type = .free then 0 else (tree inum).nlink.toNat

structure Dinode.Shaped (inum : Inum) (dinode : Dinode) : Prop where
  dir : dinode.type = .dir → ∃ parent rest, parent ≠ 0 ∧ dinode.entries =
      { inum := inum, name := dot } :: { inum := parent, name := dotdot } :: rest ∧
    ∀ entry ∈ rest, entry.inum ≠ 0 → entry.name ≠ dot ∧ entry.name ≠ dotdot
  other : dinode.type ≠ .dir → dinode.entries = []

structure Tree.Shaped (tree : Tree) : Prop where
  zero : (tree 0).type = .free
  each : ∀ inum, (tree inum).Shaped inum

theorem FileType.kind_eq_free {type : FileType} : type.kind = .free ↔ type = .free := by
  cases type <;> simp [kind]

theorem FileType.kind_eq_dir {type : FileType} : type.kind = .dir ↔ type = .dir := by
  cases type <;> simp [kind]

/-! Entries. -/

theorem inums_nil : inums [] = 0 := rfl

theorem inums_cons_used (used : entry.inum ≠ 0) :
    inums (entry :: rest) = entry.inum ::ₘ inums rest := by
  simp [inums, used]

theorem inums_cons_empty (empty : entry.inum = 0) : inums (entry :: rest) = inums rest := by
  simp [inums, empty]

theorem mem_inums : inum ∈ inums entries ↔ inum ≠ 0 ∧ ∃ entry ∈ entries, entry.inum = inum := by
  simp [inums, and_comm]

theorem inums_eq_zero (empty : ∀ entry ∈ entries, entry.inum = 0) : inums entries = 0 := by
  refine Multiset.eq_zero_of_forall_notMem fun inum member => ?_
  obtain ⟨used, entry, inside, rfl⟩ := mem_inums.mp member
  exact used (empty entry inside)

theorem insertEntry_cons_used (entry : Dirent) (used : first.inum ≠ 0) (rest : List Dirent) :
    insertEntry entry (first :: rest) = first :: insertEntry entry rest := by
  simp only [insertEntry, List.findIdx_cons, used, decide_false,
    cond_false, List.length_cons, Nat.add_lt_add_iff_right]
  split <;> rfl

theorem insertEntry_cons_empty (entry : Dirent) (empty : first.inum = 0) (rest : List Dirent) :
    insertEntry entry (first :: rest) = entry :: rest := by
  simp [insertEntry, List.findIdx_cons, empty]

theorem inums_insertEntry (used : entry.inum ≠ 0) (entries : List Dirent) :
    inums (insertEntry entry entries) = entry.inum ::ₘ inums entries := by
  induction entries with
  | nil => exact inums_cons_used used
  | cons first rest induction =>
    by_cases empty : first.inum = 0
    · rw [insertEntry_cons_empty entry empty, inums_cons_used used, inums_cons_empty empty]
    · rw [insertEntry_cons_used entry empty, inums_cons_used empty,
        inums_cons_used empty, induction, Multiset.cons_swap]

theorem mem_insertEntry (member : other ∈ insertEntry entry entries) :
    other = entry ∨ other ∈ entries := by
  unfold insertEntry at member
  split at member
  · exact (List.mem_or_eq_of_mem_set member).symm
  · rcases List.mem_append.mp member with old | last
    · exact .inr old
    · exact .inl (List.mem_singleton.mp last)

theorem inums_set (place : entries[index]? = some entry) (used : entry.inum ≠ 0) :
    entry.inum ::ₘ inums (entries.set index { inum := 0, name := [] }) = inums entries := by
  induction entries generalizing index with
  | nil => cases place
  | cons first rest induction =>
    cases index with
    | zero =>
      cases place
      rw [List.set_cons_zero, inums_cons_empty rfl, inums_cons_used used]
    | succ index =>
      rw [List.set_cons_succ]
      by_cases empty : first.inum = 0
      · rw [inums_cons_empty empty, inums_cons_empty empty, induction place]
      · rw [inums_cons_used empty, inums_cons_used empty, Multiset.cons_swap, induction place]

namespace Dinode.Shaped

variable {inum : Inum} {dinode : Dinode}

theorem congr (shaped : dinode.Shaped inum) {other : Dinode} (type : other.type = dinode.type)
    (entries : other.entries = dinode.entries) : other.Shaped inum where
  dir isDir := by
    rw [entries]
    exact shaped.dir (type ▸ isDir)
  other notDir := by
    rw [entries]
    exact shaped.other (type ▸ notDir)

/-- What dirlink() does to a directory that does not have the name. -/
theorem insert (shaped : dinode.Shaped inum) (isDir : dinode.type = .dir)
    (top : inum ≠ 0) (absent : scanEntries name dinode.entries 0 = none)
     (used : target ≠ 0) {entries : List Dirent} (inserted : entries = insertEntry
      { inum := target, name := name.take dirsiz } dinode.entries) :
    ({ dinode with entries := entries } : Dinode).Shaped inum ∧ inums (entries.drop 2) =
        target ::ₘ inums (dinode.entries.drop 2) ∧ entries[1]? = dinode.entries[1]? := by
  obtain ⟨parent, rest, nonzero, shape, names⟩ := shaped.dir isDir
  have fresh : ∀ entry ∈ dinode.entries, entry.inum ≠ 0 →
      name.take dirsiz ≠ entry.name.take dirsiz := by
    intro entry member inUse same
    refine scanEntries_none absent member inUse ?_
    simp [namecmp, same]
  rw [shape] at fresh
  rw [shape, insertEntry_cons_used _ (by exact top),
    insertEntry_cons_used _ (by exact nonzero)] at inserted
  refine ⟨⟨fun _ => ⟨parent, _, nonzero, inserted, ?_⟩, fun other => absurd isDir other⟩, ?_, ?_⟩
  · intro entry member inUse
    rcases mem_insertEntry member with rfl | old
    · exact ⟨fresh _ (.head _) top, fresh _ (.tail _ (.head _)) nonzero⟩
    · exact names entry old inUse
  · rw [inserted, shape]
    exact inums_insertEntry used rest
  · rw [inserted, shape]
    rfl

/-- What sys_unlink() does to the entry that it found under a name other
than "." and "..". -/
theorem clear (shaped : dinode.Shaped inum) (isDir : dinode.type = .dir)
    (found : scanEntries name dinode.entries 0 = some (index, target))
    (notDot : namecmp name dot ≠ true)
    (notDotdot : namecmp name dotdot ≠ true) {entries : List Dirent} (cleared : entries =
      dinode.entries.set index { inum := 0, name := [] }) :
    ({ dinode with entries := entries } : Dinode).Shaped inum ∧ index < dinode.entries.length ∧
      target ::ₘ inums (entries.drop 2) = inums (dinode.entries.drop 2) ∧
      entries[1]? = dinode.entries[1]? := by
  obtain ⟨parent, rest, nonzero, shape, names⟩ := shaped.dir isDir
  obtain ⟨used, _, entry, place, rfl, named⟩ := scanEntries_some found
  rw [shape] at place cleared ⊢
  match index, place with
  | 0, place =>
    cases place
    exact absurd named notDot
  | 1, place =>
    cases place
    exact absurd named notDotdot
  | index + 2, place =>
    have inside : rest[index]? = some entry := place
    refine ⟨⟨fun _ => ⟨parent, _, nonzero, cleared, ?_⟩,
      fun other => absurd isDir other⟩, ?_, ?_, ?_⟩
    · intro other member inUse
      rcases List.mem_or_eq_of_mem_set member with old | rfl
      · exact names other old inUse
      · exact absurd rfl inUse
    · have bound := (List.getElem?_eq_some_iff.mp inside).1
      simpa using bound
    · rw [cleared]
      exact inums_set inside used
    · rw [cleared]
      rfl

end Dinode.Shaped

end Xv6Lottery
