import Xv6Lottery.Disk.Layout
import Xv6Lottery.Disk.Read

/-! balloc() and bmap() keep the layout of the file system. -/

namespace Xv6Lottery.Disk

open Concurrent Function

/-! A free block is found, marked and zeroed. -/

theorem ballocScan_some (found : ballocScan sb b data = some bi) :
    bi < bpb ∧ b + bi < sb.size ∧ data.bit bi = false := by
  have member := List.mem_of_find?_eq_some found
  have free := List.find?_some found
  rw [List.mem_range] at member
  simp only [Bool.not_eq_eq_eq_not, Bool.not_true] at free
  exact ⟨by omega, by omega, free⟩

theorem ballocScan_none (none : ballocScan sb b data = none) (bound : bi < bpb)
    (inside : b + bi < sb.size) : data.bit bi = true := by
  have all := List.find?_eq_none.mp none bi (List.mem_range.mpr (by omega))
  simpa using all

section Aligned

variable {sb : Superblock} {block : Nat → Block} {b bi : Nat}

theorem bblock_add (aligned : b % bpb = 0) (bound : bi < bpb) :
    sb.bblock (b + bi) = sb.bblock b := by
  unfold Superblock.bblock
  have quotient : (b + bi) / bpb = b / bpb := by
    simp only [bpb, bsize] at aligned bound ⊢
    omega
  rw [quotient]

theorem mod_add (aligned : b % bpb = 0) (bound : bi < bpb) : (b + bi) % bpb = bi := by
  simp only [bpb, bsize] at aligned bound ⊢
  omega

theorem used_add (aligned : b % bpb = 0) (bound : bi < bpb) :
    used sb block (b + bi) = (block (sb.bblock b)).bit bi := by
  unfold used
  rw [bblock_add aligned bound, mod_add aligned bound]

end Aligned

theorem spoilt_of_logged (b : Nat) (bad : update spoilt b false c = true) : spoilt c = true := by
  by_cases same : c = b
  · rw [same, update_self] at bad
    cases bad
  · rwa [update_of_ne same] at bad

namespace Layout

variable {sb : Superblock} {block : Nat → Block} {spoilt : Nat → Bool}
  {live : Nat → Option Live} {owner : Nat → Owner} {claims : Nat → AddrSlot → Nat} {b : Nat}

theorem take (layout : Layout sb block spoilt live owner claims) (wf : sb.WellFormed)
    (onDisk : b < sb.size) (unused : used sb block b = false) :
    Layout sb (update (update block (sb.bblock b) ((block (sb.bblock b)).setBit (b % bpb))) b
        Block.zero) (update (update spoilt (sb.bblock b) false) b false) live
      (update owner b (.hand (some Block.zero))) claims := by
  obtain ⟨area, _⟩ := layout.blocks.free_of_unused onDisk unused
  have marked := layout.mark wf onDisk unused (fun bad => spoilt_of_logged (sb.bblock b) bad)
  have mine : update owner b (.hand none) b = .hand none :=
    update_self ..
  have loose : ∀ {c}, update (update spoilt (sb.bblock b) false) b false c = true →
        Loose sb c (update owner b (.hand none) c) := by
    intro c bad
    by_cases same : c = b
    · rw [same, update_self] at bad
      cases bad
    · rw [update_of_ne same] at bad
      exact marked.loose bad
  have filled := marked.fill wf Block.zero area (by rw [mine]; nofun)
    (fun {known} owns => nomatch mine.symm.trans owns) loose
  have known := filled.certify mine (update_self ..) (update_self ..)
  rwa [update_idem] at known

end Layout

variable {Agent : Type} {sb : Superblock} {self : Agent}
  {volume : Volume Agent} {live : Nat → Option Live} {owner : Nat → Owner}
  {claims : Nat → AddrSlot → Nat}

/-- balloc() returns a zeroed block that no one owned, or 0 when the disk is
full. -/
structure Ballocated (sb : Superblock) (live : Nat → Option Live)
    (owner : Nat → Owner) (claims : Nat → AddrSlot → Nat)
    (volume : Volume Agent) (b : Nat) (finish : Volume Agent) : Prop where
  mem : finish.mem = volume.mem
  full : b = 0 → finish = volume ∧ ∀ c, c < sb.size → used sb volume.block c = true
  layout : b ≠ 0 → Layout sb finish.block finish.spoilt live
    (update owner b (.hand (some Block.zero))) claims
  free : b ≠ 0 → sb.dataStart ≤ b ∧ owner b = .free
  dinodes : ∀ i, i < sb.ninodes → dinode sb finish.block i = dinode sb volume.block i
  data : ∀ c, sb.dataStart ≤ c → c ≠ b → finish.block c = volume.block c

theorem ballocFrom_spec (wf : sb.WellFormed)
    (layout : Layout sb volume.block volume.spoilt live owner claims) (aligned : b % bpb = 0)
    (before : ∀ c, c < b → c < sb.size → used sb volume.block c = true)
    (enough : sb.size ≤ b + bpb * rounds) :
    Runs self (ballocFrom sb rounds b) volume (Ballocated sb live owner claims volume) := by
  have full : sb.size ≤ b → Ballocated sb live owner claims volume 0 volume := fun beyond =>
    ⟨rfl, fun _ => ⟨rfl, fun c inside => before c (by omega) inside⟩,
      fun wrong => (wrong rfl).elim, fun wrong => (wrong rfl).elim,
      fun _ _ => rfl, fun _ _ _ => rfl⟩
  induction rounds generalizing b with
  | zero => exact .pure (full (by omega))
  | succ rounds induction =>
    rw [ballocFrom]
    split
    next inside =>
      cases found : ballocScan sb b (volume.block (sb.bblock b)) with
      | some bi =>
        obtain ⟨bound, onDisk, free⟩ := ballocScan_some found
        rw [← used_add aligned bound] at free
        obtain ⟨area, unowned⟩ :=
          layout.blocks.free_of_unused onDisk free
        have place := wf.bitmap (b + bi) onDisk
        have taken := layout.take wf onDisk free
        rw [bblock_add aligned bound] at place
        rw [bblock_add aligned bound, mod_add aligned bound] at taken
        have positive : b + bi ≠ 0 := by
          have start := wf.data_pos
          omega
        refine .bind (Runs.logWrite (by rw [found]) ?_)
        refine .bind (Runs.logWrite rfl (.pure ?_))
        refine ⟨rfl, fun zero => (positive zero).elim, fun _ => taken,
          fun _ => ⟨area, unowned⟩, fun i inode => ?_, fun c beyond differs => ?_⟩
        · have early := wf.iblock_lt_data inode
          refine (dinode_update (by omega)).trans (dinode_update ?_)
          exact (wf.iblock_lt inode).ne
        exact (update_of_ne differs ..).trans (update_of_ne (by omega) ..)
      | none =>
        refine .bind (Runs.bread (by rw [found]) ?_)
        have next : ∀ c, c < b + bpb → c < sb.size → used sb volume.block c = true := by
          intro c near inside
          by_cases early : c < b
          · exact before c early inside
          · obtain ⟨bi, rfl⟩ := Nat.exists_eq_add_of_le (Nat.le_of_not_lt early)
            have bound : bi < bpb := by omega
            rw [used_add aligned bound]
            exact ballocScan_none found bound inside
        refine induction ?_ next ?_ fun beyond => ?_
        · simp only [bpb, bsize] at aligned ⊢
          omega
        · rw [Nat.mul_succ] at enough
          omega
        · exact ⟨rfl, fun _ => ⟨rfl, fun c inside =>
            next c (by omega) inside⟩, fun wrong => (wrong rfl).elim,
            fun wrong => (wrong rfl).elim, fun _ _ => rfl,
            fun _ _ _ => rfl⟩
    next outside => exact .pure (full (by omega))

theorem balloc_spec (wf : sb.WellFormed)
    (layout : Layout sb volume.block volume.spoilt live owner claims) :
    Runs self (balloc sb) volume (Ballocated sb live owner claims volume) := by
  refine ballocFrom_spec wf layout (Nat.zero_mod _) nofun ?_
  simp only [bpb, bsize]
  omega

/-! The block numbers of an inode that is held. -/

/-- The process has the lock of the inode in a slot of the table, and its
copy is what is known of it. -/
structure Holds (sb : Superblock) (ip : Fin ninode) (i : Nat)
    (volume : Volume Agent) (l : Live) (live : Nat → Option Live)
    (owner : Nat → Owner) (claims : Nat → AddrSlot → Nat) : Prop where
  layout : Layout sb volume.block volume.spoilt live owner claims
  held : live i = some l
  whole : l.whole = true
  copy : (volume.mem.itable ip).copy = l.copy
  inum : (volume.mem.itable ip).key.inum = i
  hands : ∀ b data, owner b ≠ .hand data

structure Extends (sb : Superblock) (i : Nat) (block : Nat → Block)
    (claims : Nat → AddrSlot → Nat) (block' : Nat → Block)
    (claims' : Nat → AddrSlot → Nat) : Prop where
  others : ∀ j, j ≠ i → claims' j = claims j
  kept : ∀ place, claims i place ≠ 0 → claims' i place = claims i place
  data : ∀ j place, claims j place ≠ 0 → (j = i → place ≠ indirectBlock) →
      block' (claims j place) = block (claims j place)
  dinodes : ∀ j, j < sb.ninodes → dinode sb block' j = dinode sb block j

namespace Extends

variable {i : Nat} {block block' block'' : Nat → Block} {claims' claims'' : Nat → AddrSlot → Nat}

theorem refl : Extends sb i block claims block claims :=
  ⟨fun _ _ => rfl, fun _ _ => rfl, fun _ _ _ _ => rfl, fun _ _ => rfl⟩

theorem trans (first : Extends sb i block claims block' claims')
    (second : Extends sb i block' claims' block'' claims'') :
    Extends sb i block claims block'' claims'' where
  others := fun j other => (second.others j other).trans (first.others j other)
  kept := by
    intro place claimed
    have same := first.kept place claimed
    rw [second.kept place (same ▸ claimed), same]
  data := by
    intro j place claimed notTable
    have same : claims' j place = claims j place := by
      by_cases mine : j = i
      · subst mine
        exact first.kept place claimed
      · rw [first.others j mine]
    have later := second.data j place (same ▸ claimed) notTable
    rw [same] at later
    exact later.trans (first.data j place claimed notTable)
  dinodes := fun j inode => (second.dinodes j inode).trans (first.dinodes j inode)

end Extends

namespace Holds

variable {ip : Fin ninode} {i : Nat} {l : Live}

section

variable (holds : Holds sb ip i volume l live owner claims)

include holds

theorem known :
    LiveSound sb volume.block i (claims i) l :=
  (holds.layout.inodes i).held holds.held

theorem claims_eq :
    claims i = slots volume.block (volume.mem.itable ip).copy := by
  rw [holds.copy, holds.known.whole holds.whole]
  exact holds.known.slots holds.whole

theorem addrs_eq (k : Fin (ndirect + 1)) :
    (volume.mem.itable ip).copy.addrs k = claims i (direct k) := by
  rw [holds.claims_eq, slots_direct]

theorem update_live :
    update live i (some l) = live := by
  rw [← holds.held]
  exact update_eq_self i live

theorem attach_hands (c : Nat)
    (data : Option Block) : update owner b (.slot i place) c ≠ .hand data := by
  by_cases same : c = b
  · rw [same, update_self]
    nofun
  · rw [update_of_ne same]
    exact holds.hands c data

theorem claims_ne (free : owner b = .free)
    (claimed : claims j place ≠ 0) : claims j place ≠ b := by
  rintro rfl
  cases (holds.layout.blocks.claimed claimed).symm.trans free

end

end Holds

/-- What bmap() does for a place of the inode: its block number, or 0 when the
disk is full. -/
structure Mapped (sb : Superblock) (ip : Fin ninode) (i : Nat) (l : Live)
    (live : Nat → Option Live) (claims : Nat → AddrSlot → Nat)
    (volume : Volume Agent) (place : AddrSlot) (addr : Nat)
    (finish : Volume Agent) (l' : Live) (owner' : Nat → Owner)
    (claims' : Nat → AddrSlot → Nat) : Prop where
  holds : Holds sb ip i finish l' (update live i (some l')) owner' claims'
  grows : Extends sb i volume.block claims finish.block claims'
  copy : l'.copy = { l.copy with addrs := l'.copy.addrs }
  mem : finish.mem = volume.mem.setCopy ip l'.copy
  found : addr ≠ 0 → claims' i place = addr
  full : addr = 0 → ∀ c, c < sb.size → used sb finish.block c = true

section Bmap

variable {ip : Fin ninode} {i : Nat} {l : Live}

theorem Holds.mapped (holds : Holds sb ip i volume l live owner claims)
    (found : claims i place = addr) (positive : addr ≠ 0) :
    Mapped sb ip i l live claims volume place addr volume l owner claims where
  holds := by
    rw [holds.update_live]
    exact holds
  grows := .refl
  copy := rfl
  mem := by
    rw [← holds.copy, Mem.setCopy_self]
  found := fun _ => found
  full := fun zero => (positive zero).elim

theorem Holds.unmapped (holds : Holds sb ip i volume l live owner claims) (place : AddrSlot)
    (full : ∀ c, c < sb.size → used sb volume.block c = true) :
    Mapped sb ip i l live claims volume place 0 volume l owner claims where
  holds := by
    rw [holds.update_live]
    exact holds
  grows := .refl
  copy := rfl
  mem := by
    rw [← holds.copy, Mem.setCopy_self]
  found := fun wrong => (wrong rfl).elim
  full := fun _ => full

theorem bmapDirect_spec (wf : sb.WellFormed) (holds : Holds sb ip i volume l live owner claims)
    (k : Fin (ndirect + 1)) :
    Runs self (bmapDirect sb ip k) volume fun addr finish => ∃ l' owner' claims',
      Mapped sb ip i l live claims volume (direct k) addr finish l' owner' claims' := by
  refine .bind (Runs.readIp ?_)
  split
  next none =>
    refine .seq (balloc_spec wf holds.layout) ?_
    intro b middle ballocated
    split
    next zero =>
      obtain ⟨rfl, full⟩ := ballocated.full zero
      exact .pure ⟨_, _, _, holds.unmapped _ full⟩
    next positive =>
      obtain ⟨area, free⟩ := ballocated.free positive
      have layout := ballocated.layout positive
      have empty : l.copy.addrs k = 0 := holds.copy ▸ none
      have attached := layout.attach wf holds.held holds.whole (update_self ..) empty
      rw [update_idem] at attached
      refine .bind (Runs.writeIp (.pure ?_))
      rw [ballocated.mem, holds.copy]
      exact ⟨_, _, _, {
        holds := {
          layout := attached
          held := update_self ..
          whole := rfl
          copy := Mem.setCopy_copy ..
          inum := by
            simp only [Mem.setCopy_key]
            exact holds.inum
          hands := holds.attach_hands }
        grows := {
          others := fun j other => update_of_ne other ..
          kept := by
            intro place claimed
            rw [update_self]
            refine update_of_ne (fun same => claimed ?_) ..
            rw [same, ← holds.addrs_eq]
            exact none
          data := fun j place claimed _ => ballocated.data _ (holds.layout.blocks.inside claimed).1
            (holds.claims_ne free claimed)
          dinodes := ballocated.dinodes }
        copy := rfl
        mem := rfl
        found := fun _ => by
          rw [update_self, update_self]
        full := fun zero => (positive zero).elim }⟩
  next mapped =>
    exact .pure ⟨_, _, _, holds.mapped (holds.addrs_eq k).symm mapped⟩

theorem bmapIndirect_spec (wf : sb.WellFormed) (holds : Holds sb ip i volume l live owner claims)
    (here : claims i indirectBlock = table) (there : table ≠ 0) (m : Fin nindirect) :
    Runs self (bmapIndirect sb m table) volume fun addr finish => ∃ l' owner' claims',
      Mapped sb ip i l live claims volume (indirect m) addr finish l' owner' claims' := by
  have entry : l.copy.addrs (Fin.last ndirect) = table := by
    rw [← holds.copy, holds.addrs_eq]
    exact here
  have word : claims i (indirect m) = (volume.block table).word (4 * m) := by
    rw [holds.claims_eq, slots_indirect, holds.copy, entry, if_neg there]
  refine .bind (Runs.bread rfl ?_)
  split
  next none =>
    refine .seq (balloc_spec wf holds.layout) ?_
    intro b middle ballocated
    split
    next zero =>
      obtain ⟨rfl, full⟩ := ballocated.full zero
      exact .pure ⟨_, _, _, holds.unmapped _ full⟩
    next positive =>
      obtain ⟨area, free⟩ := ballocated.free positive
      have layout := ballocated.layout positive
      have empty : l.addr (indirect m) = 0 := by
        rw [← holds.known.whole holds.whole, word]
        exact none
      have owned := holds.layout.blocks.claimed (here.symm ▸ there)
      have beyond := (holds.layout.blocks.inside (here.symm ▸ there)).1
      rw [here] at owned beyond
      have attached := layout.attachIndirect wf holds.held holds.whole
        (update_self ..) entry there empty (fun bad => spoilt_of_logged table bad)
      rw [update_idem] at attached
      have same : ∀ {j place}, claims j place ≠ 0 →
          (j = i → place ≠ indirectBlock) → claims j place ≠ table := by
        intro j place claimed notTable equal
        rw [← here] at equal
        have ⟨inode, where_⟩ := holds.layout.blocks.distinct (here.symm ▸ there) equal
        exact notTable inode where_
      refine .bind (Runs.logWrite rfl (.pure ?_))
      exact ⟨_, _, _, {
        holds := {
          layout := attached
          held := update_self ..
          whole := holds.whole
          copy := (congrArg (fun mem => (mem.itable ip).copy) ballocated.mem).trans holds.copy
          inum := (congrArg (fun mem => (mem.itable ip).key.inum) ballocated.mem).trans holds.inum
          hands := holds.attach_hands }
        grows := {
          others := fun j other => update_of_ne other ..
          kept := by
            intro place claimed
            rw [update_self]
            refine update_of_ne (fun same => claimed ?_) ..
            rw [same, word]
            exact none
          data := fun j place claimed notTable =>
            (update_of_ne (same claimed notTable) ..).trans
              (ballocated.data _ (holds.layout.blocks.inside claimed).1
                (holds.claims_ne free claimed))
          dinodes := fun j inode => by
            have early := wf.iblock_lt_data inode
            exact (dinode_update (by omega)).trans
              (ballocated.dinodes j inode) }
        copy := rfl
        mem := by
          rw [← holds.copy, Mem.setCopy_self]
          exact ballocated.mem
        found := fun _ => by
          rw [update_self, update_self]
        full := fun zero => (positive zero).elim }⟩
  next mapped =>
    exact .pure ⟨_, _, _, holds.mapped word mapped⟩

theorem bmap_spec (wf : sb.WellFormed) (holds : Holds sb ip i volume l live owner claims)
    (bn : Fin maxfile) :
    Runs self (bmap sb ip bn) volume fun addr finish => ∃ l' owner' claims',
      Mapped sb ip i l live claims volume (dataSlot bn) addr finish l' owner' claims' := by
  unfold bmap
  by_cases small : (bn : Nat) < ndirect
  · have place : dataSlot bn = direct ⟨bn, Nat.lt_succ_of_lt small⟩ :=
      dif_pos small
    rw [dif_pos small, place]
    exact bmapDirect_spec wf holds _
  · have bound := sub_ndirect_lt bn
    have place : dataSlot bn = indirect ⟨bn - ndirect, bound⟩ :=
      dif_neg small
    rw [dif_neg small, if_pos bound, place]
    refine .seq (bmapDirect_spec wf holds _) ?_
    rintro table middle ⟨l', owner', claims', mapped⟩
    split
    next zero =>
      refine .pure ⟨l', owner', claims', ?_⟩
      exact ⟨mapped.holds, mapped.grows, mapped.copy, mapped.mem,
        fun wrong => (wrong rfl).elim, fun _ => mapped.full zero⟩
    next positive =>
      refine (bmapIndirect_spec wf mapped.holds (mapped.found positive)
        positive ⟨bn - ndirect, bound⟩).mono ?_
      rintro addr finish ⟨last, owner'', claims'', later⟩
      refine ⟨last, owner'', claims'', ?_⟩
      have holds := later.holds
      rw [update_idem] at holds
      exact {
        holds := holds
        grows := mapped.grows.trans later.grows
        copy := by rw [later.copy, mapped.copy]
        mem := by rw [later.mem, mapped.mem, Mem.setCopy_setCopy]
        found := later.found
        full := later.full }

end Bmap

end Xv6Lottery.Disk
