import Xv6Lottery.Disk.Write

/-! A file system at rest: no block is shared, none is leaked, and no file has
holes. -/

namespace Xv6Lottery.Disk

open Function

def addrOf (sb : Superblock) (block : Nat → Block) (i : Nat) : AddrSlot → Nat :=
  if i < sb.ninodes then contents block (dinode sb block i) else fun _ => 0

structure Consistent (sb : Superblock) (block : Nat → Block) : Prop where
  inside : ∀ i place, addrOf sb block i place ≠ 0 → sb.dataStart ≤ addrOf sb block i place ∧
      addrOf sb block i place < sb.size
  once : ∀ i place j place', addrOf sb block i place ≠ 0 →
    addrOf sb block j place' = addrOf sb block i place → j = i ∧ place' = place
  used : ∀ b, b < sb.size → (used sb block b = true ↔
    b < sb.dataStart ∨ ∃ i place, addrOf sb block i place = b)
  noHoles : ∀ i, i < sb.ninodes → (dinode sb block i).type ≠ 0 →
    NoHoles (dinode sb block i).size (addrOf sb block i)

section Owners

variable {sb : Superblock} {block : Nat → Block}

open Classical in
noncomputable def ownerOf (sb : Superblock) (block : Nat → Block) (b : Nat) :
    Owner :=
  if claimed : b ≠ 0 ∧ ∃ at_ : Nat × AddrSlot, addrOf sb block at_.1 at_.2 = b then
    .slot claimed.2.choose.1 claimed.2.choose.2
  else
    .free

theorem ownerOf_hands (b : Nat) (data : Option Block) : ownerOf sb block b ≠ .hand data := by
  unfold ownerOf
  split <;> nofun

namespace Consistent

theorem owner_addrOf (consistent : Consistent sb block) (claimed : addrOf sb block i place ≠ 0) :
    ownerOf sb block (addrOf sb block i place) = .slot i place := by
  have there : addrOf sb block i place ≠ 0 ∧ ∃ at_ : Nat × AddrSlot,
      addrOf sb block at_.1 at_.2 = addrOf sb block i place :=
    ⟨claimed, (i, place), rfl⟩
  unfold ownerOf
  rw [dif_pos there]
  obtain ⟨inode, where_⟩ := consistent.once i place _ _ claimed there.2.choose_spec
  rw [inode, where_]

theorem addrOf_owner (owns : ownerOf sb block b = .slot i place) :
    b ≠ 0 ∧ addrOf sb block i place = b := by
  unfold ownerOf at owns
  split at owns
  next there =>
    have spec := there.2.choose_spec
    rw [(Owner.slot.inj owns).1, (Owner.slot.inj owns).2] at spec
    exact ⟨there.1, spec⟩
  · cases owns

theorem owned (consistent : Consistent sb block) (wf : sb.WellFormed) :
    Owned sb (Disk.used sb block) (ownerOf sb block) (addrOf sb block) where
  claimed := consistent.owner_addrOf
  owned := fun owns => (addrOf_owner owns).2
  range := by
    intro b taken
    cases owns : ownerOf sb block b with
    | free => exact (taken owns).elim
    | hand data => exact (ownerOf_hands b data owns).elim
    | slot i place =>
      obtain ⟨positive, rfl⟩ := addrOf_owner owns
      exact consistent.inside i place positive
  used := by
    intro b onDisk
    rw [consistent.used b onDisk]
    have start := wf.data_pos
    by_cases early : b < sb.dataStart
    · simp only [early, true_or]
    · simp only [early, false_or]
      constructor
      · rintro ⟨i, place, rfl⟩
        rw [consistent.owner_addrOf (by omega)]
        nofun
      · intro taken
        cases owns : ownerOf sb block b with
        | free => exact (taken owns).elim
        | hand data => exact (ownerOf_hands b data owns).elim
        | slot i place => exact ⟨i, place, (addrOf_owner owns).2⟩

theorem layout (consistent : Consistent sb block) (wf : sb.WellFormed) :
    Layout sb block (fun _ => false) (fun _ => none) (ownerOf sb block) (addrOf sb block) where
  blocks := consistent.owned wf
  inodes := fun i => {
    resting := fun _ inode => if_pos inode
    noHoles := fun _ => consistent.noHoles i
    outside := fun beyond => if_neg (Nat.not_lt.mpr beyond)
    held := nofun }
  inHand := fun owns => (ownerOf_hands _ _ owns).elim
  loose := nofun

end Consistent

theorem Layout.consistent (layout : Layout sb block spoilt (fun _ => none) owner claims)
    (wf : sb.WellFormed) (hands : ∀ b data, owner b ≠ .hand data) :
    claims = addrOf sb block ∧ Consistent sb block := by
  have same : claims = addrOf sb block := by
    funext i
    unfold addrOf
    split
    next inode => exact (layout.inodes i).resting rfl inode
    next beyond => exact (layout.inodes i).outside (Nat.not_lt.mp beyond)
  subst same
  have blocks := layout.blocks
  refine ⟨rfl, fun i place => blocks.inside,
    fun i place j place' claimed => blocks.distinct claimed,
    fun b onDisk => ?_, fun i inode => (layout.inodes i).noHoles rfl inode⟩
  rw [blocks.used onDisk]
  have start := wf.data_pos
  by_cases early : b < sb.dataStart
  · simp only [early, true_or]
  · simp only [early, false_or]
    constructor
    · intro taken
      cases owns : owner b with
      | free => exact (taken owns).elim
      | hand data => exact (hands b data owns).elim
      | slot i place => exact ⟨i, place, blocks.owned owns⟩
    · rintro ⟨i, place, rfl⟩
      rw [blocks.claimed (by omega)]
      nofun

end Owners

/-! An inode that is locked and as its dinode. -/

variable {Agent : Type}

structure Locked (sb : Superblock) (ip : Fin ninode) (i : Nat)
    (block : Nat → Block) (mem : Mem Agent) : Prop where
  inode : i < sb.ninodes
  inum : (mem.itable ip).key.inum = i
  copy : (mem.itable ip).copy = dinode sb block i
  type : (dinode sb block i).type ≠ 0

def liveOf (sb : Superblock) (block : Nat → Block) (i : Nat) : Live where
  copy := dinode sb block i
  addr := addrOf sb block i
  whole := true
  synced := true

section Rest

variable {sb : Superblock} {ip : Fin ninode} {i : Nat} {volume : Volume Agent}

theorem Consistent.holds (consistent : Consistent sb volume.block) (wf : sb.WellFormed)
    (locked : Locked sb ip i volume.block volume.mem) (spoilt : volume.spoilt = fun _ => false) :
    Holds sb ip i volume (liveOf sb volume.block i)
      (update (fun _ => none) i (some (liveOf sb volume.block i))) (ownerOf sb volume.block)
      (addrOf sb volume.block) where
  layout := by
    rw [spoilt]
    exact (consistent.layout wf).load locked.inode rfl locked.type
  held := update_self ..
  whole := rfl
  copy := locked.copy
  inum := locked.inum
  hands := ownerOf_hands

theorem Holds.consistent (holds : Holds sb ip i volume l live owner claims) (wf : sb.WellFormed)
    (synced : l.synced = true) (alone : update live i none = fun _ => none) :
    claims = addrOf sb volume.block ∧ Consistent sb volume.block ∧
      Locked sb ip i volume.block volume.mem := by
  have layout := holds.layout.unload holds.held holds.whole synced
  rw [alone] at layout
  have ⟨same, consistent⟩ := layout.consistent wf holds.hands
  have known := holds.known
  have dinode := known.synced synced
  exact ⟨same, consistent, known.inode, holds.inum,
    holds.copy.trans dinode.symm, dinode.symm ▸ known.type⟩

end Rest

theorem cleared_fits (type nlink : BitVec 16) :
    ({ Inode.cleared type with nlink := nlink } : Inode).Fits :=
  ⟨Nat.two_pow_pos 32, fun _ => Nat.two_pow_pos 32⟩

def fileOf (sb : Superblock) (block : Nat → Block) (i : Nat) : List UInt8 :=
  content block (dinode sb block i)

section Files

variable {sb : Superblock} {block block' : Nat → Block}

theorem addrOf_slots (inode : i < sb.ninodes) (type : (dinode sb block i).type ≠ 0) :
    addrOf sb block i = slots block (dinode sb block i) := by
  rw [addrOf, if_pos inode, contents, if_neg type]

theorem fileOf_get (inode : i < sb.ninodes) (type : (dinode sb block i).type ≠ 0) (position : Nat) :
    (fileOf sb block i)[position]? = if position <
      (dinode sb block i).size then some (fileByte block (addrOf sb block i) position) else none
      := by
  unfold fileOf content
  rw [addrOf_slots inode type, List.getElem?_map]
  split
  next small => rw [List.getElem?_range small, Option.map_some]
  next large =>
    rw [List.getElem?_eq_none (by rw [List.length_range]; omega),
      Option.map_none]

theorem fileOf_length (i : Nat) : (fileOf sb block i).length = (dinode sb block i).size := by
  unfold fileOf content
  rw [List.length_map, List.length_range]

theorem Aside.fileOf (consistent : Consistent sb block)
    (aside : Aside sb i block (addrOf sb block) block' (addrOf sb block')) (other : j ≠ i)
    (inode : j < sb.ninodes) (type : (dinode sb block j).type ≠ 0) :
    fileOf sb block' j = fileOf sb block j := by
  have dinodes := aside.dinodes j other inode
  have type' : (dinode sb block' j).type ≠ 0 := dinodes.symm ▸ type
  have noHoles := consistent.noHoles j inode type
  apply List.ext_getElem?
  intro position
  rw [fileOf_get inode type, fileOf_get inode type', dinodes, aside.others j other]
  split
  next small =>
    rw [fileByte_congr fun range => aside.data j _ other (noHoles.filled _ ?_)]
    simp only [bsize]
    omega
  · rfl

end Files

end Xv6Lottery.Disk
