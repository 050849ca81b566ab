import Xv6Lottery.Disk.Format

/-! Who owns the blocks of a file system. -/

namespace Xv6Lottery.Disk

open Function

/-! The areas do not overlap. -/

namespace Superblock

variable {sb : Superblock}

theorem WellFormed.iblock_lt (wf : sb.WellFormed) (inode : i < sb.ninodes) :
    sb.iblock i < sb.bblock b :=
  Nat.lt_of_lt_of_le (wf.inodes i inode) (Nat.le_add_left ..)

theorem inodestart_le_iblock (i : Nat) : sb.inodestart ≤ sb.iblock i :=
  Nat.le_add_left ..

theorem WellFormed.iblock_lt_data (wf : sb.WellFormed) (inode : i < sb.ninodes) :
    sb.iblock i < sb.dataStart :=
  (wf.iblock_lt inode).trans (wf.bitmap 0 wf.nonempty)

theorem WellFormed.inodestart_lt_data (wf : sb.WellFormed) : sb.inodestart < sb.dataStart :=
  (inodestart_le_iblock rootino).trans_lt (wf.iblock_lt_data wf.root)

theorem WellFormed.data_pos (wf : sb.WellFormed) : 0 < sb.dataStart :=
  (Nat.zero_le _).trans_lt wf.inodestart_lt_data

end Superblock

section Areas

variable {sb : Superblock} {block : Nat → Block} {data : Block} {b c i j : Nat}

theorem dinode_update (differs : sb.iblock i ≠ b) :
    dinode sb (update block b data) i = dinode sb block i := by
  unfold dinode
  rw [update_of_ne differs]

theorem dinode_store_self (fits : ip.Fits) :
    dinode sb (update block (sb.iblock i) (Inode.store (block (sb.iblock i)) (i % ipb) ip)) i =
      ip := by
  unfold dinode
  rw [update_self]
  exact Inode.load_store_self _ fits (Nat.mod_lt _ (by decide))

theorem dinode_store_other (ip : Inode) (differs : j ≠ i) :
    dinode sb (update block (sb.iblock i) (Inode.store (block (sb.iblock i)) (i % ipb) ip)) j =
      dinode sb block j := by
  by_cases same : sb.iblock j = sb.iblock i
  · have index : j % ipb ≠ i % ipb := by
      intro equal
      have quotient : j / ipb = i / ipb := Nat.add_right_cancel same
      rw [← Nat.div_add_mod j ipb, ← Nat.div_add_mod i ipb, quotient, equal] at differs
      exact differs rfl
    unfold dinode
    rw [same, update_self]
    exact Inode.load_store_other _ _ index
  · exact dinode_update same

theorem used_update (differs : sb.bblock c ≠ b) :
    used sb (update block b data) c = used sb block c := by
  unfold used
  rw [update_of_ne differs]

theorem used_of_bits
    (bits : ∀ bi, bi < bpb → bi ≠ b % bpb → data.bit bi = (block (sb.bblock b)).bit bi)
    (differs : c ≠ b) : used sb (update block (sb.bblock b) data) c = used sb block c := by
  by_cases same : sb.bblock c = sb.bblock b
  · have index : c % bpb ≠ b % bpb := by
      intro equal
      have quotient : c / bpb = b / bpb := Nat.add_right_cancel same
      rw [← Nat.div_add_mod c bpb, ← Nat.div_add_mod b bpb, quotient, equal] at differs
      exact differs rfl
    unfold used
    rw [same, update_self]
    exact bits _ (Nat.mod_lt _ (by decide)) index
  · exact used_update same

theorem slots_congr (same : ip.addrs (Fin.last ndirect) ≠ 0 → block' (ip.addrs (Fin.last ndirect)) =
      block (ip.addrs (Fin.last ndirect))) : slots block' ip = slots block ip := by
  funext place
  unfold slots
  split
  · rfl
  split
  · rfl
  next table => rw [same table]

theorem slots_direct (block : Nat → Block) (ip : Inode)
    (k : Fin (ndirect + 1)) : slots block ip (direct k) = ip.addrs k :=
  dif_pos k.isLt

theorem slots_indirect (block : Nat → Block) (ip : Inode) (m : Fin nindirect) :
    slots block ip (indirect m) = if ip.addrs (Fin.last ndirect) =
      0 then 0 else (block (ip.addrs (Fin.last ndirect))).word (4 * m) := by
  have beyond : ¬(indirect m : Nat) < ndirect + 1 := by
    exact Nat.not_lt.mpr (Nat.le_add_right ..)
  have place : (indirect m : Nat) - (ndirect + 1) = m :=
    Nat.add_sub_cancel_left ..
  unfold slots
  rw [dif_neg beyond, place]

theorem slots_zero (block : Nat → Block) (empty : ip.addrs = fun _ => 0) :
    slots block ip = fun _ => 0 := by
  funext place
  unfold slots
  rw [empty]
  split
  · rfl
  · exact if_pos rfl

theorem place_cases (place : AddrSlot) : (∃ k, place = direct k) ∨ ∃ k, place = indirect k := by
  by_cases bound : (place : Nat) < ndirect + 1
  · exact .inl ⟨⟨place, bound⟩, rfl⟩
  · refine .inr ⟨⟨place - (ndirect + 1), ?_⟩, ?_⟩
    · have := place.isLt
      omega
    · apply Fin.ext
      simp only [indirect, Fin.val_natAdd]
      omega

theorem direct_ne_indirect (k : Fin (ndirect + 1)) (l : Fin nindirect) : direct k ≠ indirect l := by
  intro same
  have values := congrArg Fin.val same
  simp only [direct, indirect, Fin.val_castAdd, Fin.val_natAdd] at values
  omega

theorem direct_inj (same : direct k' = direct k) : k' = k :=
  Fin.castAdd_injective _ _ same

theorem indirect_inj (same : indirect m' = indirect m) : m' = m :=
  Fin.natAdd_injective _ _ same

theorem slots_attach
    (none : ip.addrs k = 0) (zero : block b = Block.zero) :
    slots block { ip with addrs := update ip.addrs k b } =
      update (slots block ip) (direct k) b := by
  funext place
  rcases place_cases place with ⟨k', rfl⟩ | ⟨m, rfl⟩
  · rw [slots_direct]
    change update ip.addrs k b k' = _
    by_cases here : k' = k
    · rw [here, update_self, update_self]
    · rw [update_of_ne here, update_of_ne fun same => here (direct_inj same), slots_direct]
  · rw [update_of_ne (direct_ne_indirect k m).symm, slots_indirect, slots_indirect]
    by_cases here : Fin.last ndirect = k
    · simp only [here, update_self, none, zero, Block.word_zero, ite_self, if_true]
    · simp only [update_of_ne here]

theorem slots_setWord {m : Fin nindirect} (table : ip.addrs (Fin.last ndirect) = b)
    (there : b ≠ 0) (fits : value < 2 ^ 32) :
    slots (update block b ((block b).setWord (4 * m) value)) ip =
      update (slots block ip) (indirect m) value := by
  funext place
  rcases place_cases place with ⟨k, rfl⟩ | ⟨m', rfl⟩
  · rw [update_of_ne (direct_ne_indirect k m), slots_direct, slots_direct]
  · rw [slots_indirect, table, if_neg there, update_self]
    have bound : (m : Nat) < 256 := m.isLt
    by_cases here : m' = m
    · rw [here, update_self, Block.word_setWord_self _ (by simp only [bsize]; omega) fits]
    · have differs : (m' : Nat) ≠ m := fun same => here (Fin.ext same)
      rw [update_of_ne fun same => here (indirect_inj same), slots_indirect, table, if_neg there,
        Block.word_setWord_other _ _ (by omega)]

theorem Inode.load_fits (data : Block) (index : Nat) : (Inode.load data index).Fits := by
  have word : ∀ offset, data.word offset < 2 ^ 32 := by
    intro offset
    have first := (data.byte offset).toNat_lt
    have second := (data.byte (offset + 1)).toNat_lt
    have third := (data.byte (offset + 2)).toNat_lt
    have fourth := (data.byte (offset + 3)).toNat_lt
    simp only [Block.word]
    omega
  exact ⟨word _, fun _ => word _⟩

end Areas

/-! Ownership. -/

/-- A block is free, at a place of an inode, or in the hands of the process
that has taken it from the bitmap or from an inode; it may know the data of the
block. -/
inductive Owner where
  | free
  | slot (i : Nat) (place : AddrSlot)
  | hand (data : Option Block)

/-- What the holder of an inode's lock knows: its copy, the block numbers of the
file, whether the file still has them, and whether the dinode is as the copy. -/
structure Live where
  copy : Inode
  addr : AddrSlot → Nat
  whole : Bool
  synced : Bool

structure NoHoles (size : Nat) (addr : AddrSlot → Nat) : Prop where
  small : size ≤ maxfile * bsize
  filled : ∀ bn : Fin maxfile, bn * bsize < size → addr (dataSlot bn) ≠ 0

theorem NoHoles.attach (noHoles : NoHoles size addr) (positive : b ≠ 0) (place : AddrSlot) :
    NoHoles size (update addr place b) := by
  refine ⟨noHoles.small, fun bn bound => ?_⟩
  by_cases same : dataSlot bn = place
  · rw [same, update_self]
    exact positive
  · rw [update_of_ne same]
    exact noHoles.filled bn bound

def contents (block : Nat → Block) (ip : Inode) : AddrSlot → Nat :=
  if ip.type = 0 then fun _ => 0 else slots block ip

section Layout

/-- The owner of each block of the data area, and the block numbers that
each inode claims. -/
structure Owned (sb : Superblock) (used : Nat → Bool)
    (owner : Nat → Owner) (claims : Nat → AddrSlot → Nat) : Prop where
  claimed : ∀ {i place}, claims i place ≠ 0 → owner (claims i place) = .slot i place
  owned : ∀ {b i place}, owner b = .slot i place → claims i place = b
  range : ∀ {b}, owner b ≠ .free → sb.dataStart ≤ b ∧ b < sb.size
  used : ∀ {b}, b < sb.size → (used b = true ↔ b < sb.dataStart ∨ owner b ≠ .free)

structure LiveSound (sb : Superblock) (block : Nat → Block) (i : Nat)
    (claims : AddrSlot → Nat) (live : Live) : Prop where
  inode : i < sb.ninodes
  fits : live.copy.Fits
  type : live.copy.type ≠ 0
  same : (dinode sb block i).type = live.copy.type
  synced : live.synced = true → dinode sb block i = live.copy
  whole : live.whole = true → claims = live.addr
  slots : live.whole = true → live.addr = slots block live.copy
  noHoles : live.whole = true → NoHoles live.copy.size live.addr
  apart : live.whole = false → claims = fun _ => 0

/-- What an inode claims: the block numbers of its dinode, or what the holder
of its lock knows. -/
structure InodeSound (sb : Superblock) (block : Nat → Block) (i : Nat)
    (live : Option Live) (claims : AddrSlot → Nat) : Prop where
  resting : live = none → i < sb.ninodes → claims = contents block (dinode sb block i)
  noHoles : live = none → i < sb.ninodes → (dinode sb block i).type ≠ 0 →
    NoHoles (dinode sb block i).size claims
  outside : sb.ninodes ≤ i → claims = fun _ => 0
  held : ∀ {l}, live = some l → LiveSound sb block i claims l

def Loose (sb : Superblock) (b : Nat) : Owner → Prop
  | .free => sb.dataStart ≤ b
  | .slot _ place => place ≠ indirectBlock
  | .hand data => data = none

structure Layout (sb : Superblock) (block : Nat → Block)
    (spoilt : Nat → Bool) (live : Nat → Option Live)
    (owner : Nat → Owner) (claims : Nat → AddrSlot → Nat) : Prop where
  blocks : Owned sb (used sb block) owner claims
  inodes : ∀ i, InodeSound sb block i (live i) (claims i)
  inHand : ∀ {b data}, owner b = .hand (some data) → block b = data
  loose : ∀ {b}, spoilt b = true → Loose sb b (owner b)

/-! Blocks change hands. -/

namespace Owned

variable {sb : Superblock} {used : Nat → Bool} {owner : Nat → Owner}
  {claims : Nat → AddrSlot → Nat} {b i : Nat} {place : AddrSlot}

section

variable (blocks : Owned sb used owner claims)

include blocks

theorem inside (claimed : claims i place ≠ 0) :
    sb.dataStart ≤ claims i place ∧ claims i place < sb.size := by
  apply blocks.range
  rw [blocks.claimed claimed]
  nofun

theorem pos (wf : sb.WellFormed)
    (taken : owner b ≠ .free) : b ≠ 0 := by
  have inside := blocks.range taken
  have start := wf.data_pos
  omega

theorem distinct (claimed : claims i place ≠ 0)
    (same : claims j place' = claims i place) : j = i ∧ place' = place := by
  have other := blocks.claimed (same ▸ claimed)
  rw [same, blocks.claimed claimed] at other
  cases other
  exact ⟨rfl, rfl⟩

theorem free_of_unused (onDisk : b < sb.size)
    (unused : used b = false) : sb.dataStart ≤ b ∧ owner b = .free := by
  have neither : ¬(b < sb.dataStart ∨ owner b ≠ .free) := by
    rw [← blocks.used onDisk, unused]
    nofun
  constructor
  · by_contra before
    exact neither (.inl (by omega))
  · by_contra taken
    exact neither (.inr taken)

theorem set (area : sb.dataStart ≤ b) (onDisk : b < sb.size)
    (before : ∀ i place, owner b ≠ .slot i place) (after : ∀ i place, fresh ≠ .slot i place)
    (others : ∀ c, c ≠ b → used' c = used c) (self : used' b = true ↔ fresh ≠ .free) :
    Owned sb used' (update owner b fresh) claims where
  claimed := by
    intro i place claimed
    have owns := blocks.claimed claimed
    have differs : claims i place ≠ b := by
      intro same
      rw [same] at owns
      exact before i place owns
    rw [update_of_ne differs]
    exact owns
  owned := by
    intro c i place owns
    by_cases here : c = b
    · rw [here, update_self] at owns
      exact (after i place owns).elim
    · rw [update_of_ne here] at owns
      exact blocks.owned owns
  range := by
    intro c taken
    by_cases here : c = b
    · rw [here]
      exact ⟨area, onDisk⟩
    · rw [update_of_ne here] at taken
      exact blocks.range taken
  used := by
    intro c inside
    by_cases here : c = b
    · rw [here, update_self, self]
      constructor
      · exact .inr
      · intro either
        exact either.resolve_left (by omega)
    · rw [update_of_ne here, others c here]
      exact blocks.used inside

theorem attach (wf : sb.WellFormed)
    (mine : owner b = .hand data) (empty : claims i place = 0) :
    Owned sb used (update owner b (.slot i place)) (update claims i (update (claims i) place b))
      := by
  have taken : owner b ≠ .free := fun free => nomatch free.symm.trans mine
  have positive := blocks.pos wf taken
  have here : update claims i (update (claims i) place b) i place = b := by
    rw [update_self, update_self]
  have elsewhere : ∀ {j place'}, ¬(j = i ∧ place' = place) →
      update claims i (update (claims i) place b) j place' = claims j place' := by
    intro j place' differs
    by_cases inode : j = i
    · subst inode
      rw [update_self, update_of_ne fun same => differs ⟨rfl, same⟩]
    · rw [update_of_ne inode]
  exact {
    claimed := by
      intro j place' claimed
      by_cases same : j = i ∧ place' = place
      · obtain ⟨rfl, rfl⟩ := same
        rw [here, update_self]
      · rw [elsewhere same] at claimed ⊢
        have owns := blocks.claimed claimed
        have differs : claims j place' ≠ b := by
          intro same
          rw [same, mine] at owns
          cases owns
        rw [update_of_ne differs]
        exact owns
    owned := by
      intro c j place' owns
      by_cases same : c = b
      · rw [same, update_self] at owns
        cases owns
        rw [here, same]
      · rw [update_of_ne same] at owns
        have old := blocks.owned owns
        have differs : ¬(j = i ∧ place' = place) := by
          rintro ⟨rfl, rfl⟩
          have there : owner c ≠ .free := fun free =>
            nomatch free.symm.trans owns
          exact blocks.pos wf there (old.symm.trans empty)
        rw [elsewhere differs]
        exact old
    range := by
      intro c there
      by_cases same : c = b
      · rw [same]
        exact blocks.range taken
      · rw [update_of_ne same] at there
        exact blocks.range there
    used := by
      intro c onDisk
      rw [blocks.used onDisk]
      by_cases same : c = b
      · rw [same, update_self, mine]
        simp
      · rw [update_of_ne same] }

end

end Owned

/-! What inodes claim. -/

namespace InodeSound

variable {sb : Superblock} {block block' : Nat → Block} {i : Nat}
  {live : Option Live} {claims : AddrSlot → Nat}

theorem contents_congr (same : ip.type ≠ 0 → ip.addrs (Fin.last ndirect) ≠ 0 →
      block' (ip.addrs (Fin.last ndirect)) = block (ip.addrs (Fin.last ndirect))) :
    contents block' ip = contents block ip := by
  unfold contents
  split
  · rfl
  next allocated => exact slots_congr (same allocated)

theorem congr (sound : InodeSound sb block i live claims)
    (dinodes : i < sb.ninodes → dinode sb block' i = dinode sb block i)
    (table : claims indirectBlock ≠ 0 → block' (claims indirectBlock) =
      block (claims indirectBlock)) : InodeSound sb block' i live claims where
  resting := by
    intro rest inode
    rw [dinodes inode]
    refine (sound.resting rest inode).trans (contents_congr ?_).symm
    intro allocated there
    have same : (dinode sb block i).addrs (Fin.last ndirect) = claims indirectBlock := by
      rw [sound.resting rest inode, contents, if_neg allocated]
      exact (slots_direct ..).symm
    rw [same] at there ⊢
    exact table there
  noHoles := by
    intro rest inode
    rw [dinodes inode]
    exact sound.noHoles rest inode
  outside := sound.outside
  held := by
    intro l held
    have known := sound.held held
    exact {
      inode := known.inode
      fits := known.fits
      type := known.type
      same := by
        rw [dinodes known.inode]
        exact known.same
      synced := by
        rw [dinodes known.inode]
        exact known.synced
      whole := known.whole
      slots := by
        intro whole
        refine (known.slots whole).trans (slots_congr fun there => ?_).symm
        have same : l.copy.addrs (Fin.last ndirect) = claims indirectBlock := by
          rw [known.whole whole, known.slots whole]
          exact (slots_direct ..).symm
        rw [same] at there ⊢
        exact table there
      noHoles := known.noHoles
      apart := known.apart }

end InodeSound

end Layout

end Xv6Lottery.Disk
