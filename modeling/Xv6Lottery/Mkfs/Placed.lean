import Xv6Lottery.Disk.Consistent
import Xv6Lottery.Mkfs.Image

/-! The blocks that mkfs has handed out: each to one place of one inode, the
next free one is never used before. -/

namespace Xv6Lottery.Disk

open Function

namespace Mkfs

structure Taken (freeblock inodes : Nat) (addr : Nat → AddrSlot → Nat) : Prop where
  start : nmeta ≤ freeblock
  range : ∀ {i place}, i < inodes → addr i place ≠ 0 →
    nmeta ≤ addr i place ∧ addr i place < freeblock
  once : ∀ {i place j place'}, i < inodes → j < inodes →
    addr i place ≠ 0 → addr j place' = addr i place → j = i ∧ place' = place
  covers : ∀ {b}, nmeta ≤ b → b < freeblock → ∃ i, i < inodes ∧ ∃ place, addr i place = b

theorem nmeta_pos : 0 < nmeta := by decide

namespace Taken

variable {freeblock inodes : Nat} {addr addr' : Nat → AddrSlot → Nat} {i : Nat} {place : AddrSlot}

section

variable (taken : Taken freeblock inodes addr)

include taken

theorem take (inode : i < inodes) (none : addr i place = 0)
    (mine : addr' i place = freeblock)
    (others : ∀ j place', ¬(j = i ∧ place' = place) → addr' j place' = addr j place') :
    Taken (freeblock + 1) inodes addr' := by
  have start := taken.start
  have here : ∀ {j place'}, j < inodes → addr' j place' = freeblock → j = i ∧ place' = place := by
    intro j place' known same
    by_contra apart
    rw [others j place' apart] at same
    have range := taken.range known (by
      rw [same]
      have := nmeta_pos
      omega)
    omega
  constructor
  case start => omega
  case range =>
    intro j place' known claimed
    by_cases new : j = i ∧ place' = place
    · rw [new.1, new.2, mine]
      omega
    · rw [others _ _ new] at claimed ⊢
      have range := taken.range known claimed
      omega
  case once =>
    intro j place' k place'' known known' claimed same
    by_cases new : j = i ∧ place' = place
    · rw [new.1, new.2, mine] at same
      obtain ⟨rfl, rfl⟩ := here known' same
      exact ⟨new.1.symm, new.2.symm⟩
    · by_cases new' : k = i ∧ place'' = place
      · rw [new'.1, new'.2, mine] at same
        exact (new (here known same.symm)).elim
      · rw [others _ _ new] at claimed same
        rw [others _ _ new'] at same
        exact taken.once known known' claimed same
  case covers =>
    intro b early late
    by_cases last : b = freeblock
    · exact ⟨i, inode, place, mine.trans last.symm⟩
    · obtain ⟨j, known, place', same⟩ := taken.covers early (by omega)
      refine ⟨j, known, place', (others j place' ?_).trans same⟩
      rintro ⟨rfl, rfl⟩
      have := nmeta_pos
      omega

theorem inode (none : ∀ place, addr' inodes place = 0)
    (others : ∀ j, j < inodes → addr' j = addr j) : Taken freeblock (inodes + 1) addr' := by
  have older : ∀ {j place}, j < inodes + 1 → addr' j place ≠ 0 → j < inodes := by
    intro j place known claimed
    rcases Nat.lt_succ_iff_lt_or_eq.mp known with old | rfl
    · exact old
    · exact (claimed (none place)).elim
  constructor
  case start => exact taken.start
  case range =>
    intro j place known claimed
    have old := older known claimed
    rw [others j old] at claimed ⊢
    exact taken.range old claimed
  case once =>
    intro j place k place' known known' claimed same
    have old := older known claimed
    have old' := older known' (same ▸ claimed)
    rw [others j old] at claimed same
    rw [others k old'] at same
    exact taken.once old old' claimed same
  case covers =>
    intro b early late
    obtain ⟨j, known, place, same⟩ := taken.covers early late
    exact ⟨j, Nat.lt_succ_of_lt known, place, (congrFun (others j known) place).trans same⟩

theorem congr (same : ∀ j, j < inodes → addr' j = addr j) :
    Taken freeblock inodes addr' where
  start := taken.start
  range := by
    intro j place known claimed
    rw [same j known] at claimed ⊢
    exact taken.range known claimed
  once := by
    intro j place k place' known known' claimed equal
    rw [same j known] at claimed equal
    rw [same k known'] at equal
    exact taken.once known known' claimed equal
  covers := by
    intro b early late
    obtain ⟨j, known, place, equal⟩ := taken.covers early late
    exact ⟨j, known, place, (congrFun (same j known) place).trans equal⟩

end

end Taken

/-- The inodes of mkfs and the files they stand for. The inode that iappend()
works on may not be on the image yet. -/
structure Placed (image : Nat → Block) (freeblock inodes : Nat)
    (din : Nat → Inode) (file : Nat → List UInt8) : Prop where
  taken : Taken freeblock inodes fun i => slots image (din i)
  fresh : ∀ {b}, freeblock ≤ b → image b = Block.zero
  noHoles : ∀ {i}, i < inodes → NoHoles (din i).size (slots image (din i))
  files : ∀ {i}, i < inodes → content image (din i) = file i
  /-- The rest of the last block of a file is zero. -/
  slack : ∀ {i}, i < inodes → ∀ position, (din i).size ≤ position →
    ∀ small : position / bsize < maxfile,
      slots image (din i) (dataSlot ⟨position / bsize, small⟩) ≠ 0 →
        (image (slots image (din i) (dataSlot ⟨position / bsize, small⟩))).byte
          (position % bsize) = 0

/-! The bytes of a block that has been written. -/

theorem bytes_setBytes (block : Block) (room : offset + values.length ≤ bsize) :
    (block.setBytes offset values).bytes offset values.length = values := by
  apply List.ext_getElem?
  intro position
  unfold Block.bytes
  rw [List.getElem?_map]
  by_cases inside : position < values.length
  · have found : values[position]? = some values[position] :=
      List.getElem?_eq_getElem inside
    rw [List.getElem?_range inside, Option.map_some, Block.byte_setBytes block room found, found]
  · rw [List.getElem?_eq_none (by rw [List.length_range]; omega),
      List.getElem?_eq_none (by omega), Option.map_none]

theorem content_congr (size : ip'.size = ip.size) (noHoles : NoHoles ip.size (slots image ip))
    (data : ∀ bn, slots image ip (dataSlot bn) ≠ 0 → image' (slots image' ip' (dataSlot bn)) =
      image (slots image ip (dataSlot bn))) : content image' ip' = content image ip := by
  unfold content
  rw [size]
  apply List.map_congr_left
  intro position member
  have inside := List.mem_range.mp member
  refine fileByte_congr fun small => data _ (noHoles.filled _ ?_)
  simp only [bsize]
  omega

namespace Placed

variable {image image' : Nat → Block} {freeblock inodes i : Nat}
  {din din' : Nat → Inode} {file : Nat → List UInt8}

section

variable (placed : Placed image freeblock inodes din file)

include placed

theorem table_apart (inode : i < inodes)
    (there : (din i).addrs (Fin.last ndirect) ≠ 0) (known : j < inodes) :
    slots image (din j) (dataSlot bn) ≠ (din i).addrs (Fin.last ndirect) := by
  rw [← slots_direct image (din i)] at there ⊢
  intro same
  exact dataSlot_ne_indirectBlock bn (placed.taken.once inode known there same).2

theorem grow (inode : i < inodes)
    (place : AddrSlot) (none : slots image (din i) place = 0)
    (mine : slots image' (din' i) = update (slots image (din i)) place freeblock)
    (others : ∀ j, j < inodes → j ≠ i → slots image' (din' j) = slots image (din j))
    (size : ∀ j, (din' j).size = (din j).size) (data : ∀ j bn, j < inodes →
      slots image (din j) (dataSlot bn) ≠ 0 → image' (slots image (din j) (dataSlot bn)) =
      image (slots image (din j) (dataSlot bn))) (fresh : ∀ b, freeblock ≤ b → image' b = image b) :
    Placed image' (freeblock + 1) inodes din' file := by
  have kept : ∀ {j place'}, j < inodes → slots image (din j) place' ≠ 0 →
      slots image' (din' j) place' = slots image (din j) place' := by
    intro j place' known claimed
    by_cases same : j = i
    · subst same
      rw [mine, update_of_ne]
      intro equal
      exact claimed (equal ▸ none)
    · rw [others j known same]
  have contents : ∀ {j}, j < inodes → content image' (din' j) = content image (din j) := by
    intro j known
    refine content_congr (size j) (placed.noHoles known) ?_
    intro bn there
    rw [kept known there]
    exact data j bn known there
  have positive : freeblock ≠ 0 := by
    have := placed.taken.start
    have := nmeta_pos
    omega
  constructor
  case taken =>
    have all : Taken (freeblock + 1) inodes (update (fun j => slots image (din j)) i
          (update (slots image (din i)) place freeblock)) := by
      refine placed.taken.take inode none ?_ ?_
      · rw [update_self, update_self]
      · intro j place' apart
        by_cases same : j = i
        · subst same
          rw [update_self, update_of_ne fun equal => apart ⟨rfl, equal⟩]
        · rw [update_of_ne same]
    refine all.congr fun j known => ?_
    by_cases same : j = i
    · rw [same, update_self, mine]
    · rw [update_of_ne same, others j known same]
  case fresh =>
    intro b late
    rw [fresh b (by omega)]
    exact placed.fresh (by omega)
  case noHoles =>
    intro j known
    have noHoles := placed.noHoles known
    rw [size j]
    by_cases same : j = i
    · subst same
      rw [mine]
      exact noHoles.attach positive place
    · rw [others j known same]
      exact noHoles
  case files =>
    intro j known
    exact (contents known).trans (placed.files known)
  case slack =>
    intro j known position beyond small there
    rw [size j] at beyond
    by_cases old : slots image (din j) (dataSlot ⟨position / bsize, small⟩) = 0
    · -- The block is the new one.
      have new : slots image' (din' j) (dataSlot ⟨position / bsize, small⟩) =
          freeblock := by
        by_cases same : j = i
        · subst same
          rw [mine] at there ⊢
          by_cases equal : dataSlot ⟨position / bsize, small⟩ = place
          · rw [equal, update_self]
          · rw [update_of_ne equal, old] at there
            exact (there rfl).elim
        · rw [others j known same, old] at there
          exact (there rfl).elim
      rw [new, fresh _ (Nat.le_refl _), placed.fresh (Nat.le_refl _)]
      exact Block.byte_zero _
    · rw [kept known old, data j _ known old]
      exact placed.slack known position beyond small old

theorem attach
    (inode : i < inodes) (none : (din i).addrs k = 0) :
    slots image { din i with
        addrs := update (din i).addrs k freeblock } =
      update (slots image (din i)) (direct k) freeblock ∧
    Placed image (freeblock + 1) inodes
      (update din i { din i with
        addrs := update (din i).addrs k freeblock }) file := by
  have slot := slots_attach none (placed.fresh (Nat.le_refl freeblock))
  refine ⟨slot, placed.grow inode (direct k) ?_ ?_ ?_ ?_ ?_ ?_⟩
  · rw [slots_direct, none]
  · rw [update_self, slot]
  · intro j _ other
    rw [update_of_ne other]
  · intro j
    by_cases same : j = i
    · rw [same, update_self]
    · rw [update_of_ne same]
  · exact fun _ _ _ _ => rfl
  · exact fun _ _ => rfl

theorem attachIndirect (inode : i < inodes)
    {m : Fin nindirect} (there : (din i).addrs (Fin.last ndirect) = table) (positive : table ≠ 0)
    (none : (image table).word (4 * m) = 0) (fits : freeblock < 2 ^ 32) :
    slots (update image table ((image table).setWord (4 * m) freeblock)) (din i) =
      update (slots image (din i)) (indirect m) freeblock ∧
      (∀ j, j < inodes → j ≠ i → slots (update image table
        ((image table).setWord (4 * m) freeblock)) (din j) = slots image (din j)) ∧
      Placed (update image table ((image table).setWord (4 * m) freeblock)) (freeblock + 1) inodes
      din file := by
  have slot : slots (update image table ((image table).setWord (4 * m) freeblock)) (din i) =
        update (slots image (din i)) (indirect m) freeblock :=
    slots_setWord there positive fits
  have mine : slots image (din i) indirectBlock = table := by
    rw [indirectBlock, slots_direct, there]
  have range := placed.taken.range inode (mine ▸ positive)
  rw [mine] at range
  have others : ∀ j, j < inodes → j ≠ i → slots (update image table
        ((image table).setWord (4 * m) freeblock)) (din j) = slots image (din j) := by
    intro j known other
    refine slots_congr fun claimed => update_of_ne ?_ ..
    intro same
    have theirs : slots image (din j) indirectBlock = table := by
      rw [indirectBlock, slots_direct, same]
    exact other (placed.taken.once inode known (mine ▸ positive) (theirs.trans mine.symm)).1
  refine ⟨slot, others, placed.grow inode (indirect m) ?_ slot others ?_ ?_ ?_⟩
  · rw [slots_indirect, there, if_neg positive, none]
  · exact fun _ => rfl
  · intro j bn known _
    refine update_of_ne ?_ ..
    rw [← there]
    exact placed.table_apart inode (there ▸ positive) known
  · intro b late
    exact update_of_ne (by omega) ..

theorem append
    (inode : i < inodes) (size : (din i).size = off)
    (range : off / bsize < maxfile)
    (here : slots image (din i) (dataSlot ⟨off / bsize, range⟩) = x)
    (positive : x ≠ 0) (inside : off % bsize + piece.length ≤ bsize) :
    (∀ j, j < inodes → slots (update image x ((image x).setBytes (off % bsize) piece)) (din j) =
      slots image (din j)) ∧ Placed (update image x
        ((image x).setBytes (off % bsize) piece)) freeblock inodes
      (update din i { din i with size := off + piece.length })
      (update file i (file i ++ piece)) := by
  generalize next : update image x ((image x).setBytes (off % bsize) piece) = image'
  have apart : ∀ {j place}, j < inodes → slots image (din j) place = x →
      j = i ∧ place = dataSlot ⟨off / bsize, range⟩ := by
    intro j place known same
    exact placed.taken.once inode known (here ▸ positive) (same.trans here.symm)
  have same : ∀ {j}, j < inodes → slots image' (din j) = slots image (din j) := by
    intro j known
    rw [← next]
    refine slots_congr fun _ => update_of_ne ?_ ..
    rw [← slots_direct image (din j)]
    intro equal
    exact dataSlot_ne_indirectBlock _ (apart known equal).2.symm
  have resized : ∀ size, slots image' { din i with size := size } =
      slots image' (din i) := fun _ => rfl
  have area := placed.taken.range inode (here ▸ positive)
  rw [here] at area
  refine ⟨fun _ => same, ?_, ?_, ?_, ?_, ?_⟩
  case refine_1 =>
    refine placed.taken.congr fun j known => ?_
    by_cases mine : j = i
    · rw [mine, update_self, resized, same inode]
    · rw [update_of_ne mine, same known]
  case refine_2 =>
    intro b late
    rw [← next, update_of_ne (by omega)]
    exact placed.fresh late
  case refine_3 =>
    intro j known
    have noHoles := placed.noHoles known
    by_cases mine : j = i
    · subst mine
      rw [update_self, resized, same inode]
      refine ⟨?_, fun bn bound => ?_⟩
      · simp only [bsize, maxfile] at inside range ⊢
        omega
      · by_cases before : bn * bsize < off
        · exact noHoles.filled bn (size ▸ before)
        · have last : bn = ⟨off / bsize, range⟩ := by
            apply Fin.ext
            simp only [bsize] at inside bound before ⊢
            omega
          rw [last, here]
          exact positive
    · rw [update_of_ne mine, same known]
      exact noHoles
  case refine_4 =>
    intro j known
    by_cases mine : j = i
    · subst mine
      rw [update_self, update_self, ← placed.files inode]
      have whole : content image' { din j with size := off + piece.length } =
          fileBytes image' (slots image (din j)) 0 (off + piece.length) := by
        simp only [content, fileBytes, Nat.zero_add, resized, same inode]
      have old : content image (din j) = fileBytes image (slots image (din j)) 0 off := by
        simp only [content, fileBytes, Nat.zero_add, size]
      rw [whole, old, fileBytes_append, Nat.zero_add,
        fileBytes_block range inside, here, ← next, update_self, bytes_setBytes _ inside]
      congr 1
      apply List.map_congr_left
      intro position member
      have before := List.mem_range.mp member
      rw [Nat.zero_add]
      unfold fileByte
      split
      next small =>
        by_cases last : position / bsize = off / bsize
        · simp only [last, here, update_self]
          rw [Block.byte_setBytes_other]
          left
          simp only [bsize] at last ⊢
          omega
        · rw [update_of_ne]
          intro equal
          have values := congrArg Fin.val (dataSlot_inj (apart inode equal).2)
          exact last values
      · rfl
    · rw [update_of_ne mine, update_of_ne mine, ← placed.files known]
      refine content_congr rfl (placed.noHoles known) fun bn there => ?_
      rw [same known, ← next, update_of_ne]
      intro equal
      exact mine (apart known equal).1
  case refine_5 =>
    intro j known position beyond small
    have before := placed.slack known position
    by_cases mine : j = i
    · subst mine
      rw [update_self] at beyond ⊢
      change off + piece.length ≤ position at beyond
      rw [resized, same inode]
      intro there
      have zero := before (by omega) small there
      by_cases last : position / bsize = off / bsize
      · simp only [last, here, ← next, update_self] at zero ⊢
        rw [Block.byte_setBytes_other]
        · exact zero
        · right
          simp only [bsize] at last ⊢
          omega
      · rw [← next, update_of_ne]
        · exact zero
        · intro equal
          have values := congrArg Fin.val (dataSlot_inj (apart inode equal).2)
          exact last values
    · rw [update_of_ne mine] at beyond ⊢
      rw [same known]
      intro there
      rw [← next, update_of_ne]
      · exact before beyond small there
      · intro equal
        exact mine (apart known equal).1

end

end Placed

end Mkfs

end Xv6Lottery.Disk
