import Xv6Lottery.Inode.Table
import Xv6Lottery.Lib.Tally
import Xv6Lottery.Lib.Transition

namespace Xv6Lottery

open Function

/-! The counts of the inode table against the references of the
processes. -/

namespace Itable

variable {Process Copy : Type} {table : Itable Process Copy} {key : InodeKey}

theorem find_found {slots : List (Fin ninode)}
    (result : table.find key slots empty = (found, left)) (here : found = some slot) :
    0 < (table slot).ref ∧ (table slot).key = key := by
  induction slots generalizing empty with
  | nil =>
    cases result
    cases here
  | cons first rest induction =>
    unfold find at result
    split at result
    · next hit =>
        cases result
        cases here
        exact hit
    · split at result
      · exact induction result
      · exact induction result

theorem find_absent {slots : List (Fin ninode)}
    (result : table.find key slots empty = (none, left)) :
    ∀ slot ∈ slots, ¬(0 < (table slot).ref ∧ (table slot).key = key) := by
  induction slots generalizing empty with
  | nil => exact fun _ => nofun
  | cons first rest induction =>
    unfold find at result
    split at result
    · cases result
    · next miss =>
        refine List.forall_mem_cons.mpr ⟨miss, ?_⟩
        split at result
        · exact induction result
        · exact induction result

theorem find_empty {slots : List (Fin ninode)}
    (result : table.find key slots empty = (found, left))
    (before : ∀ slot, empty = some slot → (table slot).ref = 0) (here : left = some slot) :
    (table slot).ref = 0 := by
  induction slots generalizing empty with
  | nil =>
    cases result
    exact before slot here
  | cons first rest induction =>
    unfold find at result
    split at result
    · cases result
      exact before slot here
    · split at result
      · next unused =>
          refine induction result fun other same => ?_
          cases same
          exact unused.2
      · exact induction result before

/-- What iget() returns: the entry that the inode has, or an unused one. -/
theorem iget_cases (got : table.iget key = some (next, slot)) :
    (0 < (table slot).ref ∧ (table slot).key = key ∧ next = table.addRef slot) ∨
      ((table slot).ref = 0 ∧ (∀ other, 0 < (table other).ref → (table other).key ≠ key) ∧ next =
        table.recycle slot key) := by
  unfold iget at got
  split at got
  · next found left result =>
      cases got
      have ⟨used, same⟩ := find_found result rfl
      exact .inl ⟨used, same, rfl⟩
  · next empty result =>
      cases got
      exact .inr ⟨find_empty result nofun rfl, fun other used same =>
        find_absent result other (List.mem_finRange other) ⟨used, same⟩, rfl⟩
  · cases got

end Itable

namespace InodeWorld

variable {Process : Type}

def held (refs : List InodeRef) (slot : Fin ninode) : Nat :=
  refs.countP (·.slot = slot)

theorem held_pos {refs : List InodeRef} : 0 < held refs slot ↔ ∃ ref ∈ refs, ref.slot = slot := by
  simp [held, List.countP_pos_iff]

theorem held_erase {refs : List InodeRef} (member : ref ∈ refs) (slot : Fin ninode) :
    held (refs.erase ref) slot + held [ref] slot = held refs slot := by
  have split := (List.perm_cons_erase member).countP_eq (·.slot = slot)
  unfold held
  rw [split, List.countP_cons, List.countP_cons, List.countP_nil, Nat.zero_add]

variable [Fintype Process]

structure Sound (world : InodeWorld Process) : Prop where
  table : ∀ process, (world.point process).HoldsTable ↔ world.tableLock = some process
  unique : ∀ slot other, 0 < (world.table slot).ref → 0 < (world.table other).ref →
    (world.table slot).key = (world.table other).key → slot = other
  counted : ∀ slot, ∑ process, held (world.refs process) slot = (world.table slot).ref
  keyed : ∀ process, ∀ ref ∈ world.refs process, (world.table ref.slot).key = ref.key
  uses : ∀ process ref, (world.point process).uses = some ref → ref ∈ world.refs process
  locked : ∀ process slot, (world.table slot).lock = some process →
    0 < held (world.refs process) slot
  sleeps : ∀ process ref, (world.point process).HoldsSleep → (world.point process).uses = some ref →
    (world.table ref.slot).lock = some process
  unlocked : ∀ process ref, (world.point process).PutsUnlocked →
    (world.point process).uses = some ref → (world.table ref.slot).lock ≠ some process
  last : ∀ process ref, world.point process = .freeing ref → (world.table ref.slot).ref = 1

theorem initial_sound (ninodes : Nat) (dinode : InodeKey → DinodeMeta) (copy : DinodeMeta) :
    (initial ninodes dinode copy : InodeWorld Process).Sound where
  table _ := ⟨nofun, nofun⟩
  unique _ _ := nofun
  counted _ := Finset.sum_eq_zero fun _ _ => rfl
  keyed _ _ := nofun
  uses _ _ := nofun
  locked _ _ := nofun
  sleeps _ _ := nofun
  unlocked _ _ := nofun
  last _ _ := nofun

namespace Sound

variable {world next : InodeWorld Process} {self : Process} {point : InodePoint} {ref : InodeRef}

variable (sound : world.Sound)

include sound

theorem held_le (process : Process) (slot : Fin ninode) :
    held (world.refs process) slot ≤ (world.table slot).ref := by
  rw [← sound.counted slot]
  exact Finset.single_le_sum (f := fun process => held (world.refs process) slot)
    (fun _ _ => Nat.zero_le _) (Finset.mem_univ process)

theorem held_two (first : 0 < held (world.refs process) slot)
    (second : 0 < held (world.refs other) slot) (differs : process ≠ other) :
    2 ≤ (world.table slot).ref := by
  classical
  have pair := Finset.sum_le_sum_of_subset (f := fun process =>
    held (world.refs process) slot) (Finset.subset_univ {process, other})
  rw [Finset.sum_pair differs, sound.counted slot] at pair
  omega

theorem freeing_unlocked (here : world.point self = .freeing ref) :
    (world.table ref.slot).lock = none := by
  have one := sound.last self ref here
  have mine : 0 < held (world.refs self) ref.slot :=
    held_pos.mpr ⟨ref, sound.uses self ref (by rw [here]; rfl), rfl⟩
  cases holder : (world.table ref.slot).lock with
  | none => rfl
  | some process =>
    have differs : process ≠ self := by
      rintro rfl
      exact sound.unlocked process ref (by rw [here]; trivial)
        (by rw [here]; rfl) holder
    have two := sound.held_two (sound.locked process _ holder) mine differs
    omega

variable [DecidableEq Process]

theorem move (moved : next.point = update world.point self point) (refs : next.refs = world.refs)
    (keys : ∀ slot, (next.table slot).key = (world.table slot).key)
    (counts : ∀ slot, (next.table slot).ref = (world.table slot).ref)
    (holds : point.HoldsTable ↔ next.tableLock = some self) (others : ∀ other, other ≠ self →
      (next.tableLock = some other ↔ world.tableLock = some other))
    (uses : ∀ ref, point.uses = some ref → ref ∈ world.refs self)
    (locks : ∀ slot other, other ≠ self → ((next.table slot).lock = some other ↔
      (world.table slot).lock = some other))
    (mine : ∀ slot, (next.table slot).lock = some self → 0 < held (world.refs self) slot)
    (sleeps : ∀ ref, point.HoldsSleep → point.uses = some ref → (next.table ref.slot).lock =
      some self) (unlocked : ∀ ref, point.PutsUnlocked → point.uses = some ref →
      (next.table ref.slot).lock ≠ some self)
    (last : ∀ ref, point = .freeing ref → (world.table ref.slot).ref = 1) : next.Sound := by
  have own : next.point self = point := by
    rw [moved, update_self]
  have theirs : ∀ other, other ≠ self →
      next.point other = world.point other := fun other differs => by
    rw [moved, update_of_ne differs]
  refine {
    table := fun process => ?_
    unique := fun slot other => ?_
    counted := fun slot => ?_
    keyed := fun process ref => ?_
    uses := fun process ref => ?_
    locked := fun process slot => ?_
    sleeps := fun process ref => ?_
    unlocked := fun process ref => ?_
    last := fun process ref => ?_ }
  · by_cases same : process = self
    · rw [same, own]
      exact holds
    · rw [theirs process same, others process same]
      exact sound.table process
  · rw [counts, counts, keys, keys]
    exact sound.unique slot other
  · rw [counts, refs]
    exact sound.counted slot
  · rw [keys, refs]
    exact sound.keyed process ref
  · rw [refs]
    by_cases same : process = self
    · rw [same, own]
      exact uses ref
    · rw [theirs process same]
      exact sound.uses process ref
  · rw [refs]
    by_cases same : process = self
    · rw [same]
      exact mine slot
    · rw [locks slot process same]
      exact sound.locked process slot
  · by_cases same : process = self
    · rw [same, own]
      exact sleeps ref
    · rw [theirs process same, locks ref.slot process same]
      exact sound.sleeps process ref
  · by_cases same : process = self
    · rw [same, own]
      exact unlocked ref
    · rw [theirs process same, Ne, locks ref.slot process same]
      exact sound.unlocked process ref
  · rw [counts]
    by_cases same : process = self
    · rw [same, own]
      exact last ref
    · rw [theirs process same]
      exact sound.last process ref

theorem stay (moved : next.point = update world.point self point) (refs : next.refs = world.refs)
    (table : next.table = world.table) (holds : point.HoldsTable ↔ next.tableLock = some self)
    (others : ∀ other, other ≠ self → (next.tableLock = some other ↔ world.tableLock = some other))
    (uses : ∀ ref, point.uses = some ref → ref ∈ world.refs self)
    (sleeps : ∀ ref, point.HoldsSleep → point.uses = some ref → (world.table ref.slot).lock =
      some self) (unlocked : ∀ ref, point.PutsUnlocked → point.uses = some ref →
      (world.table ref.slot).lock ≠ some self)
    (last : ∀ ref, point = .freeing ref → (world.table ref.slot).ref = 1) : next.Sound := by
  refine sound.move moved refs ?_ ?_ holds others uses ?_ ?_ ?_ ?_ last
  · exact fun _ => by rw [table]
  · exact fun _ => by rw [table]
  · exact fun _ _ _ => by rw [table]
  · rw [table]
    exact sound.locked self
  · rwa [table]
  · rwa [table]

omit [DecidableEq Process] in
theorem not_table (here : world.point self = point)
    (without : ¬point.HoldsTable) : world.tableLock ≠ some self := by
  intro taken
  have holds := (sound.table self).mpr taken
  rw [here] at holds
  exact without holds

omit [DecidableEq Process] in
theorem used_slot (here : world.point self = point)
    (uses : point.uses = some ref) : 0 < held (world.refs self) ref.slot :=
  held_pos.mpr ⟨ref, sound.uses self ref (by rw [here]; exact uses), rfl⟩

omit [Fintype Process] sound [DecidableEq Process] in
theorem others_take (free : world.tableLock = none) (other : Process) (differs : other ≠ self) :
    some self = some other ↔ world.tableLock = some other := by
  rw [free]
  exact iff_of_false (fun same => differs (Option.some.inj same).symm) nofun

omit [DecidableEq Process] in
theorem others_release (here : (world.point self).HoldsTable) (other : Process)
    (differs : other ≠ self) : none = some other ↔ world.tableLock = some other := by
  rw [(sound.table self).mp here]
  exact iff_of_false nofun fun same => differs (Option.some.inj same).symm

theorem relock (moved : next.point = update world.point self point)
    (refs : next.refs = world.refs) (table : next.table = world.table.setLock slot holder)
    (before : (world.table slot).lock = none ∨ (world.table slot).lock = some self)
    (after : holder = none ∨ holder = some self) (reference : 0 < held (world.refs self) slot)
    (holds : point.HoldsTable ↔ next.tableLock = some self) (others : ∀ other, other ≠ self →
      (next.tableLock = some other ↔ world.tableLock = some other))
    (uses : ∀ ref, point.uses = some ref → ref ∈ world.refs self)
    (sleeps : ∀ ref, point.HoldsSleep → point.uses = some ref → ref.slot = slot ∧ holder =
      some self) (unlocked : ∀ ref, point.PutsUnlocked → point.uses = some ref → ref.slot = slot ∧
      holder = none) (notFreeing : ∀ ref, point ≠ .freeing ref) : next.Sound := by
  have here : (next.table slot).lock = holder := by
    rw [table, Itable.setLock, update_self]
  have there : ∀ other, other ≠ slot →
      next.table other = world.table other := fun other differs => by
    rw [table, Itable.setLock, update_of_ne differs]
  have entry : ∀ other, (next.table other).key = (world.table other).key ∧
      (next.table other).ref = (world.table other).ref := fun other => by
    by_cases same : other = slot
    · rw [same, table, Itable.setLock, update_self]
      exact ⟨rfl, rfl⟩
    · rw [there other same]
      exact ⟨rfl, rfl⟩
  refine sound.move moved refs (fun other => (entry other).1)
    (fun other => (entry other).2) holds others uses ?_ ?_ ?_ ?_
    fun ref same => absurd same (notFreeing ref)
  · intro other process differs
    by_cases same : other = slot
    · rw [same, here]
      refine iff_of_false ?_ ?_
      · rcases after with after | after <;> rw [after]
        · nofun
        · exact fun same => differs (Option.some.inj same).symm
      · rcases before with before | before <;> rw [before]
        · nofun
        · exact fun same => differs (Option.some.inj same).symm
    · rw [there other same]
  · intro other taken
    by_cases same : other = slot
    · rw [same]
      exact reference
    · rw [there other same] at taken
      exact sound.locked self other taken
  · intro ref asleep uses
    obtain ⟨same, mine⟩ := sleeps ref asleep uses
    rw [same, here, mine]
  · intro ref puts uses
    obtain ⟨same, free⟩ := unlocked ref puts uses
    rw [same, here, free]
    nofun

theorem recopy (moved : next.point = update world.point self point)
    (refs : next.refs = world.refs) (table : next.table = world.table.setCopy slot valid copy)
    (lock : next.tableLock = world.tableLock) (holds : ¬point.HoldsTable)
    (free : world.tableLock ≠ some self)
    (uses : ∀ ref, point.uses = some ref → ref ∈ world.refs self)
    (sleeps : ∀ ref, point.HoldsSleep → point.uses = some ref → (world.table ref.slot).lock =
      some self) (notPuts : ¬point.PutsUnlocked) (notFreeing : ∀ ref, point ≠ .freeing ref) :
    next.Sound := by
  have entry : ∀ other, (next.table other).key = (world.table other).key ∧
      (next.table other).ref = (world.table other).ref ∧
      (next.table other).lock = (world.table other).lock := fun other => by
    by_cases same : other = slot
    · rw [same, table, Itable.setCopy, update_self]
      exact ⟨rfl, rfl, rfl⟩
    · rw [table, Itable.setCopy, update_of_ne same]
      exact ⟨rfl, rfl, rfl⟩
  refine sound.move moved refs (fun other => (entry other).1)
    (fun other => (entry other).2.1) (iff_of_false holds (lock ▸ free))
    (fun _ _ => by rw [lock]) uses ?_ ?_ ?_
    (fun _ puts => absurd puts notPuts) fun ref same => absurd same (notFreeing ref)
  · exact fun other process _ => by rw [(entry other).2.2]
  · intro other taken
    rw [(entry other).2.2] at taken
    exact sound.locked self other taken
  · intro ref asleep uses
    rw [(entry ref.slot).2.2]
    exact sleeps ref asleep uses

theorem grow (here : (world.point self).HoldsTable)
    (moved : next.point = update world.point self .idle)
    (refs : next.refs = update world.refs self (ref :: world.refs self))
    (free : next.tableLock = none)
    (count : (next.table ref.slot).ref = (world.table ref.slot).ref + 1)
    (key : (next.table ref.slot).key = ref.key) (others : ∀ slot, slot ≠ ref.slot →
      (next.table slot).ref = (world.table slot).ref ∧ (next.table slot).key =
      (world.table slot).key) (locks : ∀ slot, (next.table slot).lock = (world.table slot).lock)
    (origin : (world.table ref.slot).key = ref.key ∧ 0 < (world.table ref.slot).ref ∨
      (world.table ref.slot).ref = 0 ∧ ∀ other, 0 < (world.table other).ref →
      (world.table other).key ≠ ref.key) : next.Sound := by
  -- The return alone is a step that leaves the table as it is.
  have returned : { world with point := next.point, tableLock := none }.Sound :=
    sound.stay moved rfl rfl (iff_of_false nofun nofun)
      (sound.others_release here) nofun nofun nofun nofun
  have mine : next.refs self = ref :: world.refs self := by
    rw [refs, update_self]
  have rest : ∀ other, other ≠ self → next.refs other = world.refs other := fun other differs => by
    rw [refs, update_of_ne differs]
  have grows : ∀ {process : Process} {old}, old ∈ world.refs process →
      old ∈ next.refs process := fun {process old} member => by
    by_cases same : process = self
    · subst same
      rw [mine]
      exact .tail _ member
    · rwa [rest process same]
  have holdsMore : ∀ {process : Process} {slot}, 0 < held (world.refs process) slot →
        0 < held (next.refs process) slot := fun has => by
    obtain ⟨old, member, same⟩ := held_pos.mp has
    exact held_pos.mpr ⟨old, grows member, same⟩
  -- An entry that is recycled has no references left.
  have oldKey : ∀ {process : Process} {old}, old ∈ world.refs process →
      (next.table old.slot).key = (world.table old.slot).key := by
    intro process old member
    by_cases same : old.slot = ref.slot
    · rw [same, key]
      rcases origin with ⟨kept, _⟩ | ⟨unused, _⟩
      · exact kept.symm
      · have some := held_pos.mpr ⟨old, member, same⟩
        have bound := sound.held_le process ref.slot
        omega
    · exact (others old.slot same).2
  have separate : ∀ {slot}, slot ≠ ref.slot → 0 < (next.table slot).ref →
      (next.table slot).key ≠ ref.key := by
    intro slot differs used same
    rw [(others slot differs).1] at used
    rw [(others slot differs).2] at same
    rcases origin with ⟨kept, there⟩ | ⟨_, absent⟩
    · exact differs (sound.unique slot ref.slot used there (same.trans kept.symm))
    · exact absent slot used same
  refine {
    table := fun process => ?_
    unique := fun slot other used usedOther same => ?_
    counted := fun slot => ?_
    keyed := fun process old member => ?_
    uses := fun process old used => ?_
    locked := fun process slot taken => ?_
    sleeps := fun process old asleep used => ?_
    unlocked := fun process old puts used => ?_
    last := fun process old freeing => ?_ }
  · rw [free]
    exact returned.table process
  · by_cases first : slot = ref.slot
    · by_cases second : other = ref.slot
      · rw [first, second]
      · rw [first, key] at same
        exact absurd same.symm (separate second usedOther)
    · by_cases second : other = ref.slot
      · rw [second, key] at same
        exact absurd same (separate first used)
      · rw [(others slot first).1] at used
        rw [(others other second).1] at usedOther
        rw [(others slot first).2, (others other second).2] at same
        exact sound.unique slot other used usedOther same
  · have sums := Tally.sum_update Finset.univ (held · slot) world.refs
      (Finset.mem_univ self) (ref :: world.refs self)
    rw [← refs, sound.counted slot] at sums
    by_cases same : ref.slot = slot
    · subst same
      rw [count]
      simp only [held, List.countP_cons, decide_true, if_true] at sums ⊢
      omega
    · rw [(others slot (Ne.symm same)).1]
      simp only [held, List.countP_cons, same, decide_false, Bool.false_eq_true, if_false] at sums ⊢
      omega
  · by_cases same : process = self
    · rw [same, mine] at member
      rcases List.mem_cons.mp member with rfl | old
      · exact key
      · rw [oldKey old]
        exact sound.keyed self _ old
    · rw [rest process same] at member
      rw [oldKey member]
      exact sound.keyed process old member
  · exact grows (returned.uses process old used)
  · rw [locks slot] at taken
    exact holdsMore (sound.locked process slot taken)
  · rw [locks]
    exact returned.sleeps process old asleep used
  · rw [locks]
    exact returned.unlocked process old puts used
  · exact nomatch (returned.table process).mp (by rw [freeing]; trivial)

theorem drop (here : world.point self = .dropping ref)
    (moved : next.point = update world.point self .idle)
    (refs : next.refs = update world.refs self ((world.refs self).erase ref))
    (free : next.tableLock = none) (table : next.table = world.table.dropRef ref.slot) :
    next.Sound := by
  have holder : (world.point self).HoldsTable := by
    rw [here]
    trivial
  have member := sound.uses self ref (by rw [here]; rfl)
  -- The return alone is a step that leaves the table as it is.
  have returned : { world with point := next.point, tableLock := none }.Sound :=
    sound.stay moved rfl rfl (iff_of_false nofun nofun)
      (sound.others_release holder) nofun nofun nofun nofun
  have mine : next.refs self = (world.refs self).erase ref := by
    rw [refs, update_self]
  have rest : ∀ other, other ≠ self → next.refs other = world.refs other := fun other differs => by
    rw [refs, update_of_ne differs]
  have fewer : ∀ {process : Process} {old}, old ∈ next.refs process →
      old ∈ world.refs process := fun {process old} left => by
    by_cases same : process = self
    · subst same
      rw [mine] at left
      exact List.mem_of_mem_erase left
    · rwa [rest process same] at left
  have entry : ∀ slot, (next.table slot).key = (world.table slot).key ∧
      (next.table slot).lock = (world.table slot).lock ∧
      (next.table slot).ref ≤ (world.table slot).ref := fun slot => by
    by_cases same : slot = ref.slot
    · rw [same, table, Itable.dropRef, update_self]
      exact ⟨rfl, rfl, Nat.sub_le _ _⟩
    · rw [table, Itable.dropRef, update_of_ne same]
      exact ⟨rfl, rfl, Nat.le_refl _⟩
  refine {
    table := fun process => ?_
    unique := fun slot other used usedOther same => ?_
    counted := fun slot => ?_
    keyed := fun process old left => ?_
    uses := fun process old used => ?_
    locked := fun process slot taken => ?_
    sleeps := fun process old asleep used => ?_
    unlocked := fun process old puts used => ?_
    last := fun process old freeing => ?_ }
  · rw [free]
    exact returned.table process
  · rw [(entry slot).1, (entry other).1] at same
    exact sound.unique slot other (used.trans_le (entry slot).2.2)
      (usedOther.trans_le (entry other).2.2) same
  · have sums := Tally.sum_update Finset.univ (held · slot) world.refs
      (Finset.mem_univ self) ((world.refs self).erase ref)
    have split := held_erase member slot
    have bound := sound.held_le self slot
    rw [← refs, sound.counted slot] at sums
    by_cases same : slot = ref.slot
    · have one : held [ref] slot = 1 := by simp [held, same]
      have less : (next.table slot).ref = (world.table slot).ref - 1 := by
        rw [same, table, Itable.dropRef, update_self]
      omega
    · have none : held [ref] slot = 0 := by simp [held, Ne.symm same]
      have kept : (next.table slot).ref = (world.table slot).ref := by
        rw [table, Itable.dropRef, update_of_ne same]
      omega
  · rw [(entry old.slot).1]
    exact sound.keyed process old (fewer left)
  · have differs : process ≠ self := by
      rintro rfl
      rw [moved, update_self] at used
      cases used
    rw [rest process differs]
    exact returned.uses process old used
  · rw [(entry slot).2.1] at taken
    have before := sound.locked process slot taken
    by_cases same : process = self
    · subst same
      have differs : ref.slot ≠ slot := by
        rintro rfl
        exact sound.unlocked process ref (by rw [here]; trivial)
          (by rw [here]; rfl) taken
      have split := held_erase member slot
      have none : held [ref] slot = 0 := by simp [held, differs]
      rw [mine]
      omega
    · rw [rest process same]
      exact before
  · rw [(entry old.slot).2.1]
    exact returned.sleeps process old asleep used
  · rw [(entry old.slot).2.1]
    exact returned.unlocked process old puts used
  · exact nomatch (returned.table process).mp (by rw [freeing]; trivial)

theorem give (here : world.point self = .idle) (member : ref ∈ world.refs self)
    (unlocked : (world.table ref.slot).lock ≠ some self) (differs : other ≠ self) :
    ((world.eraseRef self ref).addRef other ref).Sound := by
  generalize given : (world.eraseRef self ref).addRef other ref = next
  have same : next = { world with refs := next.refs } := by
    rw [← given]
    rfl
  have mine : next.refs self = (world.refs self).erase ref := by
    rw [← given]
    exact (update_of_ne differs.symm ..).trans (update_self ..)
  have theirs : next.refs other = ref :: world.refs other := by
    rw [← given]
    refine (update_self ..).trans (congrArg _ ?_)
    exact update_of_ne differs ..
  have rest : ∀ process, process ≠ self → process ≠ other →
      next.refs process = world.refs process := by
    intro process first second
    rw [← given]
    exact (update_of_ne second ..).trans (update_of_ne first ..)
  have grows : ∀ {process : Process} {old}, process ≠ self →
      old ∈ world.refs process → old ∈ next.refs process := by
    intro process old notSelf before
    by_cases receiver : process = other
    · subst receiver
      rw [theirs]
      exact .tail _ before
    · rwa [rest process notSelf receiver]
  have origin : ∀ {process : Process} {old}, old ∈ next.refs process →
      ∃ owner, old ∈ world.refs owner := by
    intro process old after
    by_cases giver : process = self
    · subst giver
      rw [mine] at after
      exact ⟨process, List.mem_of_mem_erase after⟩
    · by_cases receiver : process = other
      · subst receiver
        rw [theirs] at after
        rcases List.mem_cons.mp after with rfl | before
        · exact ⟨self, member⟩
        · exact ⟨process, before⟩
      · rw [rest process giver receiver] at after
        exact ⟨process, after⟩
  rw [same]
  refine { sound with
    counted := fun slot => ?_
    keyed := fun process old after => ?_
    uses := fun process old used => ?_
    locked := fun process slot taken => ?_ }
  · have first := Tally.sum_update Finset.univ (held · slot) world.refs
      (Finset.mem_univ self) ((world.refs self).erase ref)
    have second := Tally.sum_update Finset.univ (held · slot)
      (update world.refs self ((world.refs self).erase ref))
      (Finset.mem_univ other) (ref :: world.refs other)
    have split := held_erase member slot
    have refs : next.refs = update (update world.refs self
        ((world.refs self).erase ref)) other (ref :: world.refs other) := by
      rw [← given]
      change update (update world.refs self ((world.refs self).erase ref)) other
          (ref :: update world.refs self ((world.refs self).erase ref) other) = _
      rw [update_of_ne differs]
    rw [update_of_ne differs, ← refs] at second
    have longer : held (ref :: world.refs other) slot =
        held (world.refs other) slot + held [ref] slot := by
      simp [held, List.countP_cons]
    rw [sound.counted slot] at first
    simp only
    omega
  · obtain ⟨owner, before⟩ := origin after
    exact sound.keyed owner old before
  · have notSelf : process ≠ self := by
      rintro rfl
      rw [here] at used
      cases used
    exact grows notSelf (sound.uses process old used)
  · have before := sound.locked process slot taken
    by_cases giver : process = self
    · subst giver
      have elsewhere : ref.slot ≠ slot := by
        rintro rfl
        exact unlocked taken
      have split := held_erase member slot
      have none : held [ref] slot = 0 := by simp [held, elsewhere]
      simp only [mine]
      omega
    · obtain ⟨old, has, there⟩ := held_pos.mp before
      exact held_pos.mpr ⟨old, grows giver has, there⟩

theorem addRef (here : (world.point self).HoldsTable) (used : 0 < (world.table ref.slot).ref)
    (key : (world.table ref.slot).key = ref.key)
    (moved : next.point = update world.point self .idle)
    (refs : next.refs = update world.refs self (ref :: world.refs self))
    (free : next.tableLock = none) (table : next.table = world.table.addRef ref.slot) :
    next.Sound := by
  have entry : next.table ref.slot = { world.table ref.slot with
      ref := (world.table ref.slot).ref + 1 } := by
    rw [table]
    exact update_self ..
  have others : ∀ slot, slot ≠ ref.slot → next.table slot = world.table slot := by
    intro slot differs
    rw [table]
    exact update_of_ne differs ..
  refine sound.grow here moved refs free ?_ ?_ ?_ ?_ (.inl ⟨key, used⟩)
  · rw [entry]
  · rw [entry]
    exact key
  · intro slot differs
    rw [others slot differs]
    exact ⟨rfl, rfl⟩
  · intro slot
    by_cases same : slot = ref.slot
    · rw [same, entry]
    · rw [others slot same]

theorem iget (here : world.point self = .getting key) : (world.iget self key).Sound := by
  unfold InodeWorld.iget
  split
  · exact { sound with }
  · next table slot got =>
      have holder : (world.point self).HoldsTable := by
        rw [here]
        trivial
      rcases Itable.iget_cases got with
        ⟨used, same, rfl⟩ | ⟨unused, absent, rfl⟩
      · exact sound.addRef holder used same rfl rfl rfl rfl
      · have fresh := update_self slot
          { world.table slot with key := key, ref := 1, valid := false } world.table
        refine sound.grow holder rfl rfl rfl ?_ ?_ ?_ ?_ (.inr ⟨unused, absent⟩)
        · rw [unused]
          exact congrArg TableEntry.ref fresh
        · exact congrArg TableEntry.key fresh
        · intro other differs
          have kept : world.table.recycle slot key other = _ :=
            update_of_ne differs ..
          exact ⟨congrArg TableEntry.ref kept, congrArg TableEntry.key kept⟩
        · intro other
          change (update world.table slot _ other).lock = _
          by_cases here : other = slot
          · rw [here, update_self]
          · rw [update_of_ne here]

end Sound

omit [Fintype Process] in
theorem At.still [DecidableEq Process] {world : InodeWorld Process} {point : InodePoint}
    (here : world.At self point) : world.point = update world.point self point := by
  rw [← here.2, update_eq_self]

theorem Step.sound [DecidableEq Process] {world next : InodeWorld Process}
    {event : InodeEvent Process} (taken : Step world event next)
    (sound : world.Sound) : next.Sound := by
  cases taken with
  | callIget here =>
    exact sound.stay rfl rfl rfl (iff_of_false nofun (sound.not_table here.2 nofun))
      (fun _ _ => Iff.rfl) nofun nofun nofun nofun
  | acquireGet here free =>
    exact sound.stay rfl rfl rfl (iff_of_true trivial rfl)
      (Sound.others_take free) nofun nofun nofun nofun
  | iget here => exact sound.iget here.2
  | callIdup here member free =>
    refine sound.stay rfl rfl rfl (iff_of_true trivial rfl)
      (Sound.others_take free) ?_ nofun nofun nofun
    rintro ref ⟨⟩
    exact member
  | idup here =>
    have member := sound.uses _ _ (by rw [here.2]; rfl)
    exact sound.addRef (by rw [here.2]; trivial)
      ((held_pos.mpr ⟨_, member, rfl⟩).trans_le (sound.held_le _ _))
      (sound.keyed _ _ member) rfl rfl rfl rfl
  | callIlock here member =>
    unfold InodeWorld.ilock
    split
    · exact { sound with }
    · refine sound.stay rfl rfl rfl (iff_of_false nofun (sound.not_table here.2 nofun))
        (fun _ _ => Iff.rfl) ?_ nofun nofun nofun
      rintro ref ⟨⟩
      exact member
  | acquiresleep here free =>
    refine sound.relock rfl rfl rfl (.inl free) (.inr rfl) (sound.used_slot here.2 rfl)
      (iff_of_false nofun (sound.not_table here.2 nofun)) (fun _ _ => Iff.rfl) ?_ ?_ nofun nofun
    · rintro ref ⟨⟩
      exact sound.uses _ _ (by rw [here.2]; rfl)
    · rintro ref _ ⟨⟩
      exact ⟨rfl, rfl⟩
  | load here =>
    have free := sound.not_table here.2 nofun
    unfold InodeWorld.load
    split
    · exact sound.stay rfl rfl rfl (iff_of_false nofun free)
        (fun _ _ => Iff.rfl) nofun nofun nofun nofun
    · simp only
      split
      · refine sound.recopy here.still rfl rfl rfl nofun free ?_ ?_ nofun nofun
        · rintro _ ⟨⟩
          exact sound.uses _ _ (by rw [here.2]; rfl)
        · rintro _ _ ⟨⟩
          exact sound.sleeps _ _ (by rw [here.2]; trivial)
            (by rw [here.2]; rfl)
      · exact sound.recopy rfl rfl rfl rfl nofun free nofun nofun nofun nofun
  | @iunlock _ self slot here =>
    unfold InodeWorld.iunlock
    split
    · exact { sound with }
    · next passed =>
        have mine : (world.table slot).lock = some self := by
          by_contra other
          exact passed (.inl other)
        exact sound.relock here.still rfl rfl (.inr mine) (.inl rfl) (sound.locked self slot mine)
          (iff_of_false nofun (sound.not_table here.2 nofun))
          (fun _ _ => Iff.rfl) nofun nofun nofun nofun
  | change here mine =>
    exact sound.recopy here.still rfl rfl rfl nofun
      (sound.not_table here.2 nofun) nofun nofun nofun nofun
  | iupdate here mine => exact { sound with }
  | callIput here member unlocked free =>
    refine sound.stay rfl rfl rfl (iff_of_true trivial rfl)
      (Sound.others_take free) ?_ nofun ?_ nofun
    · rintro ref ⟨⟩
      exact member
    · rintro ref _ ⟨⟩
      exact unlocked
  | @test _ self ref here =>
    have holder := (sound.table self).mp (by rw [here.2]; trivial)
    have member := sound.uses self ref (by rw [here.2]; rfl)
    have unlocked := sound.unlocked self ref (by rw [here.2]; trivial)
      (by rw [here.2]; rfl)
    unfold InodeWorld.test
    simp only
    split
    · next only =>
        refine sound.stay rfl rfl rfl (iff_of_true trivial holder)
          (fun _ _ => Iff.rfl) ?_ nofun ?_ ?_
        · rintro _ ⟨⟩
          exact member
        · rintro _ _ ⟨⟩
          exact unlocked
        · rintro _ ⟨⟩
          exact only.1
    · refine sound.stay rfl rfl rfl (iff_of_true trivial holder)
        (fun _ _ => Iff.rfl) ?_ nofun ?_ nofun
      · rintro _ ⟨⟩
        exact member
      · rintro _ _ ⟨⟩
        exact unlocked
  | acquireFree here free =>
    refine sound.relock rfl rfl rfl (.inl free) (.inr rfl)
      (sound.used_slot here.2 rfl) (iff_of_false nofun nofun)
      (sound.others_release (by rw [here.2]; trivial)) ?_ ?_ nofun nofun
    · rintro ref ⟨⟩
      exact sound.uses _ _ (by rw [here.2]; rfl)
    · rintro ref _ ⟨⟩
      exact ⟨rfl, rfl⟩
  | truncate here =>
    refine sound.recopy rfl rfl rfl rfl nofun (sound.not_table here.2 nofun) ?_ ?_ nofun nofun
    · rintro ref ⟨⟩
      exact sound.uses _ _ (by rw [here.2]; rfl)
    · rintro ref _ ⟨⟩
      exact sound.sleeps _ _ (by rw [here.2]; trivial) (by rw [here.2]; rfl)
  | invalidate here =>
    refine sound.recopy rfl rfl rfl rfl nofun (sound.not_table here.2 nofun) ?_ ?_ nofun nofun
    · rintro ref ⟨⟩
      exact sound.uses _ _ (by rw [here.2]; rfl)
    · rintro ref _ ⟨⟩
      exact sound.sleeps _ _ (by rw [here.2]; trivial) (by rw [here.2]; rfl)
  | releasesleep here =>
    refine sound.relock rfl rfl rfl (.inr (sound.sleeps _ _
        (by rw [here.2]; trivial) (by rw [here.2]; rfl))) (.inl rfl)
      (sound.used_slot here.2 rfl) (iff_of_false nofun (sound.not_table here.2 nofun))
      (fun _ _ => Iff.rfl) ?_ nofun ?_ nofun
    · rintro ref ⟨⟩
      exact sound.uses _ _ (by rw [here.2]; rfl)
    · rintro ref _ ⟨⟩
      exact ⟨rfl, rfl⟩
  | retake here free =>
    refine sound.stay rfl rfl rfl (iff_of_true trivial rfl)
      (Sound.others_take free) ?_ nofun ?_ nofun
    · rintro ref ⟨⟩
      exact sound.uses _ _ (by rw [here.2]; rfl)
    · rintro ref _ ⟨⟩
      exact sound.unlocked _ _ (by rw [here.2]; trivial)
        (by rw [here.2]; rfl)
  | drop here => exact sound.drop here.2 rfl rfl rfl rfl
  | callIalloc here =>
    exact sound.stay rfl rfl rfl (iff_of_false nofun (sound.not_table here.2 nofun))
      (fun _ _ => Iff.rfl) nofun nofun nofun nofun
  | tryInode here =>
    have free := sound.not_table here.2 nofun
    unfold InodeWorld.tryInode
    split
    · split
      · exact sound.stay rfl rfl rfl (iff_of_false nofun free)
          (fun _ _ => Iff.rfl) nofun nofun nofun nofun
      · exact sound.stay rfl rfl rfl (iff_of_false nofun free)
          (fun _ _ => Iff.rfl) nofun nofun nofun nofun
    · exact sound.stay rfl rfl rfl (iff_of_false nofun free)
        (fun _ _ => Iff.rfl) nofun nofun nofun nofun
  | give here member unlocked differs =>
    exact sound.give here.2 member unlocked differs

open Transition

/-- The inode table: one entry for an inode, exact counts, entries that stay
while they are referenced, and an iput() that never waits for a sleep lock with
itable.lock. -/
theorem itable_invariant [DecidableEq Process] {ninodes : Nat} {dinode : InodeKey → DinodeMeta}
    {copy : DinodeMeta} {events : List (InodeEvent Process)} {world : InodeWorld Process}
    (run : Run Step (initial ninodes dinode copy) events world) :
    (world.tableLock = none → (∀ slot other, 0 < (world.table slot).ref → 0 <
        (world.table other).ref → (world.table slot).key = (world.table other).key → slot = other) ∧
        (∀ slot, (world.table slot).ref = ∑ process, (world.refs process).countP (·.slot = slot)) ∧
        ∀ process, ∀ ref ∈ world.refs process, (world.table ref.slot).key = ref.key) ∧
      ∀ process ref, world.point process = .freeing ref → world.tableLock = some process ∧
      (world.table ref.slot).lock = none := by
  have sound : world.Sound := run.invariant Sound
    (initial_sound ninodes dinode copy) fun sound taken => taken.sound sound
  refine ⟨fun _ => ⟨sound.unique, fun slot => (sound.counted slot).symm,
    sound.keyed⟩, fun process ref here => ⟨?_, sound.freeing_unlocked here⟩⟩
  exact (sound.table process).mp (by rw [here]; trivial)

def firstRoot : InodeRef := ⟨⟨0, by decide⟩, 1, rootino⟩

theorem first_iget_keeps_entry : ∃ events world, Run Step (initial 2
        (fun _ => { type := .dir, nlink := 1 }) { type := .free, nlink := 0 }) events world ∧
      world.tableLock = none ∧ firstRoot ∈ world.refs (0 : Fin 2) ∧
      (world.table firstRoot.slot).key = firstRoot.key := by
  let start : InodeWorld (Fin 2) := initial 2
    (fun _ => { type := .dir, nlink := 1 }) { type := .free, nlink := 0 }
  have called : Run Step start [.callIget 0 firstRoot.key] _ :=
    .single (.callIget ⟨rfl, rfl⟩)
  have acquired : Run Step start (_ ++ [.acquireGet 0]) _ :=
    called.tail (.acquireGet ⟨rfl, rfl⟩ rfl)
  have got : Run Step start (_ ++ [.iget 0]) _ :=
    acquired.tail (.iget ⟨rfl, rfl⟩)
  exact ⟨_, _, got, rfl, .head _, ((itable_invariant got).1 rfl).2.2 0 firstRoot (.head _)⟩

end InodeWorld

end Xv6Lottery
