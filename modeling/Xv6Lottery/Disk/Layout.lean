import Xv6Lottery.Disk.Ownership

/-! What each step of balloc(), bfree(), bmap(), itrunc() and iupdate() does
to the owners of the blocks. -/

namespace Xv6Lottery.Disk

open Function

namespace Layout

variable {sb : Superblock} {block block' : Nat → Block}
  {spoilt spoilt' : Nat → Bool} {live : Nat → Option Live}
  {owner : Nat → Owner} {claims : Nat → AddrSlot → Nat} {b i : Nat}

section

variable (layout : Layout sb block spoilt live owner claims)

include layout

theorem fill (wf : sb.WellFormed)
    (data : Block) (area : sb.dataStart ≤ b) (notTable : ∀ {i}, owner b ≠ .slot i indirectBlock)
    (notHand : ∀ {known}, owner b = .hand (some known) → data = known)
    (loose : ∀ {c}, spoilt' c = true → Loose sb c (owner c)) :
    Layout sb (update block b data) spoilt' live owner claims := by
  have dinodes : ∀ {i}, i < sb.ninodes → dinode sb (update block b data) i = dinode sb block i := by
    intro i inode
    have before := wf.iblock_lt_data inode
    exact dinode_update (by omega)
  refine {
    blocks := ?_
    inodes := fun i => (layout.inodes i).congr dinodes fun claimed => ?_
    inHand := ?_
    loose := loose }
  · have blocks := layout.blocks
    refine ⟨blocks.claimed, blocks.owned, blocks.range, fun {c} onDisk => ?_⟩
    have before := wf.bitmap c onDisk
    rw [used_update (by omega)]
    exact blocks.used onDisk
  · refine update_of_ne (fun same => ?_) ..
    rw [← same] at notTable
    exact notTable (layout.blocks.claimed claimed)
  · intro c known owns
    by_cases same : c = b
    · subst same
      rw [update_self]
      exact notHand owns
    · rw [update_of_ne same]
      exact layout.inHand owns

theorem remap (wf : sb.WellFormed)
    (onDisk : b < sb.size) (area : sb.dataStart ≤ b)
    (bits : ∀ bi, bi < bpb → bi ≠ b % bpb → data.bit bi = (block (sb.bblock b)).bit bi)
    (bit : data.bit (b % bpb) = true ↔ fresh ≠ .free)
    (before : ∀ i place, owner b ≠ .slot i place) (after : ∀ i place, fresh ≠ .slot i place)
    (unknown : ∀ data, fresh ≠ .hand (some data))
    (less : ∀ {c}, spoilt' c = true → spoilt c = true) :
    Layout sb (update block (sb.bblock b) data) spoilt' live (update owner b fresh) claims := by
  have dinodes : ∀ {i}, i < sb.ninodes → dinode sb (update block (sb.bblock b) data) i =
        dinode sb block i :=
    fun inode => dinode_update (wf.iblock_lt inode).ne
  have same : ∀ {c}, sb.dataStart ≤ c → update block (sb.bblock b) data c = block c := by
    intro c beyond
    have place := wf.bitmap b onDisk
    exact update_of_ne (by omega) ..
  refine {
    blocks := ?_
    inodes := fun i => (layout.inodes i).congr dinodes
      fun claimed => same (layout.blocks.inside claimed).1
    inHand := ?_
    loose := ?_ }
  · refine layout.blocks.set area onDisk before after
      (fun c differs => used_of_bits bits differs) ?_
    unfold used
    rw [update_self]
    exact bit
  · intro c known owns
    have differs : c ≠ b := by
      rintro rfl
      rw [update_self] at owns
      exact unknown known owns
    rw [update_of_ne differs] at owns
    have taken : owner c ≠ .free := fun free => nomatch free.symm.trans owns
    rw [same (layout.blocks.range taken).1]
    exact layout.inHand owns
  · intro c bad
    by_cases here : c = b
    · rw [here, update_self]
      cases fresh with
      | free => exact area
      | slot i place => exact (after i place rfl).elim
      | hand data =>
        cases data with
        | none => rfl
        | some data => exact (unknown data rfl).elim
    · rw [update_of_ne here]
      exact layout.loose (less bad)

theorem mark (wf : sb.WellFormed)
    (onDisk : b < sb.size) (unused : used sb block b = false)
    (less : ∀ {c}, spoilt' c = true → spoilt c = true) :
    Layout sb (update block (sb.bblock b) ((block (sb.bblock b)).setBit (b % bpb))) spoilt' live
      (update owner b (.hand none)) claims := by
  have small : b % bpb < bpb := Nat.mod_lt _ (by decide)
  obtain ⟨area, free⟩ := layout.blocks.free_of_unused onDisk unused
  refine layout.remap wf onDisk area (fun bi _ differs => Block.bit_setBit_other _ small differs)
    ⟨fun _ => nofun, fun _ => Block.bit_setBit_self _ small⟩ ?_ nofun nofun less
  rw [free]
  nofun

theorem certify
    (mine : owner b = .hand before) (here : block b = data) (unspoilt : spoilt b = false) :
    Layout sb block spoilt live (update owner b (.hand (some data))) claims := by
  have taken : owner b ≠ .free := fun free => nomatch free.symm.trans mine
  obtain ⟨area, onDisk⟩ := layout.blocks.range taken
  refine {
    blocks := ?_
    inodes := layout.inodes
    inHand := ?_
    loose := ?_ }
  · refine layout.blocks.set area onDisk (by rw [mine]; nofun) nofun
      (fun _ _ => rfl) ?_
    rw [layout.blocks.used onDisk]
    exact ⟨fun _ => nofun, fun _ => .inr taken⟩
  · intro c known owns
    by_cases same : c = b
    · rw [same, update_self] at owns
      cases owns
      rw [same]
      exact here
    · rw [update_of_ne same] at owns
      exact layout.inHand owns
  · intro c bad
    have differs : c ≠ b := by
      rintro rfl
      rw [unspoilt] at bad
      cases bad
    rw [update_of_ne differs]
    exact layout.loose bad

end

/-! The holder of an inode's lock. -/

variable {l : Live}

section

variable (layout : Layout sb block spoilt live owner claims)

include layout

theorem learn
    (sound : InodeSound sb block i known (claims i)) :
    Layout sb block spoilt (update live i known) owner claims where
  blocks := layout.blocks
  inodes := by
    intro j
    by_cases same : j = i
    · rw [same, update_self]
      exact sound
    · rw [update_of_ne same]
      exact layout.inodes j
  inHand := layout.inHand
  loose := layout.loose

theorem load
    (inode : i < sb.ninodes) (rest : live i = none) (allocated : (dinode sb block i).type ≠ 0) :
    Layout sb block spoilt (update live i (some
        { copy := dinode sb block i
          addr := claims i
          whole := true
          synced := true })) owner claims := by
  have sound := layout.inodes i
  refine layout.learn {
    resting := nofun
    noHoles := nofun
    outside := sound.outside
    held := ?_ }
  intro l same
  cases same
  exact {
    inode := inode
    fits := Inode.load_fits _ _
    type := allocated
    same := rfl
    synced := fun _ => rfl
    whole := fun _ => rfl
    slots := fun _ => by
      refine (sound.resting rest inode).trans ?_
      rw [contents, if_neg allocated]
    noHoles := fun _ => sound.noHoles rest inode allocated
    apart := nofun }

theorem unload (held : live i = some l)
    (whole : l.whole = true) (synced : l.synced = true) :
    Layout sb block spoilt (update live i none) owner claims := by
  have sound := layout.inodes i
  have known := sound.held held
  have same := known.synced synced
  refine layout.learn {
    resting := fun _ _ => ?_
    noHoles := fun _ _ _ => ?_
    outside := sound.outside
    held := nofun }
  · rw [same, contents, if_neg known.type, known.whole whole]
    exact known.slots whole
  · rw [same, known.whole whole]
    exact known.noHoles whole

theorem recopy
    (held : live i = some l) (fits : copy.Fits) (type : copy.type = l.copy.type)
    (addrs : copy.addrs = l.copy.addrs) (noHoles : l.whole = true → NoHoles copy.size l.addr) :
    Layout sb block spoilt
      (update live i (some { l with
        copy := copy
        synced := false })) owner claims := by
  have sound := layout.inodes i
  have known := sound.held held
  refine layout.learn {
    resting := nofun
    noHoles := nofun
    outside := sound.outside
    held := ?_ }
  intro other same
  cases same
  exact {
    inode := known.inode
    fits := fits
    type := type ▸ known.type
    same := known.same.trans type.symm
    synced := nofun
    whole := known.whole
    slots := fun whole => by
      rw [known.slots whole]
      unfold Disk.slots
      rw [addrs]
    noHoles := noHoles
    apart := known.apart }

end

/-! A block gets a place. -/

theorem attach (layout : Layout sb block spoilt live owner claims)
    (wf : sb.WellFormed) (held : live i = some l) (whole : l.whole = true)
    (mine : owner b = .hand (some Block.zero)) (none : l.copy.addrs k = 0) :
    Layout sb block spoilt (update live i (some
        { copy := { l.copy with addrs := update l.copy.addrs k b }
          addr := update l.addr (direct k) b
          whole := true
          synced := false })) (update owner b (.slot i (direct k))) (update claims i
        (update (claims i) (direct k) b)) := by
  have known := (layout.inodes i).held held
  have taken : owner b ≠ .free := fun free => nomatch free.symm.trans mine
  have positive := layout.blocks.pos wf taken
  have onDisk := (layout.blocks.range taken).2
  have zero := layout.inHand mine
  have small := wf.small
  have empty : claims i (direct k) = 0 := by
    rw [known.whole whole, known.slots whole, slots_direct]
    exact none
  have notSpoilt : ∀ {c}, spoilt c = true → c ≠ b := by
    rintro c bad rfl
    have loose := layout.loose bad
    rw [mine] at loose
    cases loose
  refine {
    blocks := layout.blocks.attach wf mine empty
    inodes := fun j => ?_
    inHand := fun {c data} owns => ?_
    loose := fun {c} bad => ?_ }
  · by_cases other : j = i
    · subst other
      rw [update_self, update_self]
      refine {
        resting := nofun
        noHoles := nofun
        outside := fun beyond => absurd known.inode (by omega)
        held := ?_ }
      · intro fresh same
        cases same
        exact {
          inode := known.inode
          fits := by
            refine ⟨known.fits.size, fun k' => ?_⟩
            by_cases here : k' = k
            · rw [here]
              simp only [update_self]
              omega
            · simp only [update_of_ne here]
              exact known.fits.addrs k'
          type := known.type
          same := known.same
          synced := nofun
          whole := fun _ => by rw [known.whole whole]
          slots := fun _ => by
            rw [known.slots whole]
            exact (slots_attach none zero).symm
          noHoles := fun _ => (known.noHoles whole).attach positive _
          apart := nofun }
    · rw [update_of_ne other, update_of_ne other]
      exact layout.inodes j
  · have differs : c ≠ b := by
      rintro rfl
      rw [update_self] at owns
      cases owns
    rw [update_of_ne differs] at owns
    exact layout.inHand owns
  · rw [update_of_ne (notSpoilt bad)]
    exact layout.loose bad

theorem attachIndirect (layout : Layout sb block spoilt live owner claims)
    (wf : sb.WellFormed) (held : live i = some l) (whole : l.whole = true)
    (mine : owner b = .hand (some Block.zero))
    (here : l.copy.addrs (Fin.last ndirect) = table) (there : table ≠ 0)
     (none : l.addr (indirect m) = 0)
    (less : ∀ {c}, spoilt' c = true → spoilt c = true) : Layout sb (update block table
        ((block table).setWord (4 * m) b)) spoilt'
      (update live i (some { l with
        addr := update l.addr (indirect m) b }))
      (update owner b (.slot i (indirect m)))
      (update claims i (update (claims i) (indirect m) b)) := by
  have known := (layout.inodes i).held held
  have taken : owner b ≠ .free := fun free => nomatch free.symm.trans mine
  have positive := layout.blocks.pos wf taken
  have onDisk := (layout.blocks.range taken).2
  have small := wf.small
  have claimed : claims i indirectBlock = table := by
    rw [known.whole whole, known.slots whole, ← here]
    exact slots_direct ..
  have owns : owner table = .slot i indirectBlock := by
    rw [← claimed] at there ⊢
    exact layout.blocks.claimed there
  have area : sb.dataStart ≤ table := by
    refine (layout.blocks.range ?_).1
    rw [owns]
    nofun
  have empty : claims i (indirect m) = 0 := by
    rw [known.whole whole]
    exact none
  have notSpoilt : ∀ {c}, spoilt c = true → c ≠ b := by
    rintro c bad rfl
    have loose := layout.loose bad
    rw [mine] at loose
    cases loose
  have dinodes : ∀ {j}, j < sb.ninodes → dinode sb (update block table
        ((block table).setWord (4 * m) b)) j = dinode sb block j := by
    intro j inode
    have before := wf.iblock_lt_data inode
    exact dinode_update (by omega)
  have other : ∀ {c}, c ≠ table → update block table
      ((block table).setWord (4 * m) b) c = block c :=
    fun differs => update_of_ne differs ..
  have place : indirectBlock ≠ indirect m := direct_ne_indirect _ m
  refine {
    blocks := ?_
    inodes := fun j => ?_
    inHand := fun {c data} mineToo => ?_
    loose := fun {c} bad => ?_ }
  · have blocks := layout.blocks.attach wf mine empty
    refine ⟨blocks.claimed, blocks.owned, blocks.range, fun {c} inside => ?_⟩
    have before := wf.bitmap c inside
    rw [used_update (by omega)]
    exact blocks.used inside
  · by_cases same : j = i
    · subst same
      rw [update_self, update_self]
      refine {
        resting := nofun
        noHoles := nofun
        outside := fun beyond => absurd known.inode (by omega)
        held := ?_ }
      · intro fresh same
        cases same
        exact {
          inode := known.inode
          fits := known.fits
          type := known.type
          same := by
            rw [dinodes known.inode]
            exact known.same
          synced := by
            rw [dinodes known.inode]
            exact known.synced
          whole := fun _ => by rw [known.whole whole]
          slots := fun _ => by
            rw [known.slots whole]
            exact (slots_setWord here there (by omega)).symm
          noHoles := fun _ => (known.noHoles whole).attach positive _
          apart := fun apart => nomatch whole.symm.trans apart }
    · rw [update_of_ne same, update_of_ne same]
      have apart : ∀ {place'}, claims j place' ≠ table := by
        intro place' equal
        rw [← claimed] at there equal
        exact same (layout.blocks.distinct there equal).1
      exact (layout.inodes j).congr dinodes fun _ => other apart
  · have differs : c ≠ b := by
      rintro rfl
      rw [update_self] at mineToo
      cases mineToo
    rw [update_of_ne differs] at mineToo
    have apart : c ≠ table := by
      rintro rfl
      cases mineToo.symm.trans owns
    rw [other apart]
    exact layout.inHand mineToo
  · rw [update_of_ne (notSpoilt (less bad))]
    exact layout.loose (less bad)

/-! Dinodes. -/

theorem store (layout : Layout sb block spoilt live owner claims) (wf : sb.WellFormed)
    (inode : i < sb.ninodes) (fits : ip.Fits) (sound : ∀ {block' : Nat → Block},
      dinode sb block' i = ip → (∀ c, sb.dataStart ≤ c → block' c = block c) →
      InodeSound sb block' i known (claims i)) (less : ∀ {c}, spoilt' c = true → spoilt c = true) :
    Layout sb (update block (sb.iblock i) (Inode.store (block (sb.iblock i)) (i % ipb) ip)) spoilt'
      (update live i known) owner claims := by
  have data : ∀ c, sb.dataStart ≤ c → update block (sb.iblock i)
        (Inode.store (block (sb.iblock i)) (i % ipb) ip) c = block c := by
    intro c area
    have before := wf.iblock_lt_data inode
    exact update_of_ne (by omega) ..
  refine {
    blocks := ?_
    inodes := fun j => ?_
    inHand := fun {c known} mine => ?_
    loose := fun bad => layout.loose (less bad) }
  · have blocks := layout.blocks
    refine ⟨blocks.claimed, blocks.owned, blocks.range, fun {c} inside => ?_⟩
    rw [used_update (wf.iblock_lt inode).ne']
    exact blocks.used inside
  · by_cases same : j = i
    · subst same
      rw [update_self]
      exact sound (dinode_store_self fits) data
    · rw [update_of_ne same]
      exact (layout.inodes j).congr (fun _ => dinode_store_other ip same)
        fun claimed => data _ (layout.blocks.inside claimed).1
  · have taken : owner c ≠ .free := fun free => nomatch free.symm.trans mine
    rw [data c (layout.blocks.range taken).1]
    exact layout.inHand mine

theorem sync (layout : Layout sb block spoilt live owner claims)
    (wf : sb.WellFormed) (held : live i = some l) (whole : l.whole = true)
    (less : ∀ {c}, spoilt' c = true → spoilt c = true) : Layout sb (update block (sb.iblock i)
        (Inode.store (block (sb.iblock i)) (i % ipb) l.copy)) spoilt'
      (update live i (some { l with synced := true })) owner claims := by
  have before := layout.inodes i
  have known := before.held held
  refine layout.store wf known.inode known.fits (fun {block'} stored data => ?_) less
  refine {
    resting := nofun
    noHoles := nofun
    outside := before.outside
    held := ?_ }
  · intro fresh same
    cases same
    exact {
      inode := known.inode
      fits := known.fits
      type := known.type
      same := by rw [stored]
      synced := fun _ => stored
      whole := known.whole
      slots := fun _ => by
        rw [known.slots whole]
        refine (slots_congr fun there => ?_).symm
        have table : l.copy.addrs (Fin.last ndirect) = claims i indirectBlock := by
          rw [known.whole whole, known.slots whole]
          exact (slots_direct ..).symm
        rw [table] at there ⊢
        exact data _ (layout.blocks.inside there).1
      noHoles := known.noHoles
      apart := known.apart }

end Layout

end Xv6Lottery.Disk
