import Xv6Lottery.Lib.Tally
import Xv6Lottery.Mkfs.Placed

/-! ialloc() and iappend() of mkfs keep the files apart. -/

namespace Xv6Lottery.Disk

open Function

namespace Mkfs

/-! How many blocks a file has. -/

def blocksFor (size : Nat) : Nat :=
  (size + bsize - 1) / bsize + if ndirect * bsize < size then 1 else 0

theorem blocksFor_inside (started : off % bsize ≠ 0) (inside : off % bsize + count ≤ bsize) :
    blocksFor (off + count) = blocksFor off := by
  unfold blocksFor
  split <;> split <;> simp only [bsize, ndirect] at * <;> omega

theorem blocksFor_next (boundary : off % bsize = 0) (other : off ≠ ndirect * bsize) :
    blocksFor (off + 1) = blocksFor off + 1 := by
  unfold blocksFor
  split <;> split <;> simp only [bsize, ndirect] at * <;> omega

theorem blocksFor_table : blocksFor (ndirect * bsize + 1) = blocksFor (ndirect * bsize) + 2 := by
  decide

theorem blocksFor_mono (le : size ≤ size') : blocksFor size ≤ blocksFor size' := by
  unfold blocksFor
  split <;> split <;> simp only [bsize, ndirect] at * <;> omega

structure Exact (size : Nat) (addr : AddrSlot → Nat) : Prop where
  data : ∀ bn : Fin maxfile, addr (dataSlot bn) ≠ 0 ↔ bn * bsize < size
  table : addr indirectBlock ≠ 0 ↔ ndirect * bsize < size

namespace Exact

variable {off : Nat} {addr addr' : AddrSlot → Nat}

theorem none (exact_ : Exact off addr) (range : off / bsize < maxfile) :
    addr (dataSlot ⟨off / bsize, range⟩) = 0 ↔ off % bsize = 0 := by
  have data := exact_.data ⟨off / bsize, range⟩
  simp only [bsize] at data ⊢
  omega

theorem table_none (exact_ : Exact off addr) (large : ¬off / bsize < ndirect) :
    addr indirectBlock = 0 ↔ off = ndirect * bsize := by
  have table := exact_.table
  simp only [bsize, ndirect] at table large ⊢
  omega

theorem step (exact_ : Exact off addr) (range : off / bsize < maxfile)
    (data : ∀ bn, addr' (dataSlot bn) ≠ 0 ↔ addr (dataSlot bn) ≠ 0 ∨ bn = ⟨off / bsize, range⟩)
    (table : addr' indirectBlock ≠ 0 ↔ addr indirectBlock ≠ 0 ∨ ndirect ≤ off / bsize) :
    Exact (off + 1) addr' where
  data := by
    intro bn
    rw [data bn, exact_.data bn, Fin.ext_iff]
    simp only [bsize]
    omega
  table := by
    rw [table, exact_.table]
    simp only [bsize, ndirect]
    omega

theorem stretch (exact_ : Exact (off + 1) addr) (positive : 0 < count)
    (inside : off % bsize + count ≤ bsize) : Exact (off + count) addr where
  data := by
    intro bn
    rw [exact_.data bn]
    simp only [bsize] at inside ⊢
    omega
  table := by
    rw [exact_.table]
    simp only [bsize, ndirect] at inside ⊢
    omega

end Exact

theorem blocksFor_stretch (positive : 0 < count) (inside : off % bsize + count ≤ bsize) :
    blocksFor (off + count) = blocksFor (off + 1) := by
  unfold blocksFor
  split <;> split <;> simp only [bsize, ndirect] at * <;> omega

theorem slots_addrs (same : ip'.addrs = ip.addrs) : slots image ip' = slots image ip := by
  unfold slots
  rw [same]

/-! A place of an inode gets a block if it has none. -/

namespace State

/-- The inode is `din i`, with new block numbers afterwards. -/
structure Ensured (inodes : Nat) (din : Nat → Inode)
    (file : Nat → List UInt8) (i : Nat) (place : AddrSlot)
    (state state' : State) (addrs : Fin (ndirect + 1) → Nat) : Prop where
  placed : Placed state'.image state'.freeblock inodes
    (update din i { din i with addrs := addrs }) file
  slots : slots state'.image { din i with addrs := addrs } =
    if slots state.image (din i) place = 0 then
      update (slots state.image (din i)) place state.freeblock
    else
      slots state.image (din i)
  others : ∀ j, j < inodes → j ≠ i →
    Disk.slots state'.image (din j) = Disk.slots state.image (din j)
  freeblock : state'.freeblock = state.freeblock +
    if Disk.slots state.image (din i) place = 0 then 1 else 0
  freeinode : state'.freeinode = state.freeinode
  length : state'.length = state.length
  low : ∀ b, b < nmeta → state'.image b = state.image b

section Ensured

variable {inodes i : Nat} {din : Nat → Inode} {file : Nat → List UInt8} {state state' : State}

theorem Ensured.refl (placed : Placed state.image state.freeblock inodes din file)
    (there : Disk.slots state.image (din i) place ≠ 0) :
    Ensured inodes din file i place state state (din i).addrs where
  placed := by
    rw [update_eq_self]
    exact placed
  slots := by rw [if_neg there]
  others := fun _ _ _ => rfl
  freeblock := by rw [if_neg there, Nat.add_zero]
  freeinode := rfl
  length := rfl
  low := fun _ _ => rfl

theorem Ensured.there
    (ensured : Ensured inodes din file i place state state' addrs)
    (start : nmeta ≤ state.freeblock) :
    Disk.slots state'.image { din i with addrs := addrs } place ≠ 0 := by
  rw [ensured.slots]
  split
  · rw [update_self]
    have := nmeta_pos
    omega
  next there => exact there

theorem Ensured.other
    (ensured : Ensured inodes din file i place state state' addrs)
    (place' : AddrSlot) (differs : place' ≠ place) :
    Disk.slots state'.image { din i with addrs := addrs } place' =
      Disk.slots state.image (din i) place' := by
  rw [ensured.slots]
  split
  · rw [update_of_ne differs]
  · rfl

theorem direct_ensured (placed : Placed state.image state.freeblock inodes din file)
    (inode : i < inodes) (same : d.addrs = (din i).addrs) (k : Fin (ndirect + 1)) :
    ∃ state' addrs, state.direct d k = (state', { d with addrs := addrs }) ∧
      Ensured inodes din file i (Disk.direct k) state state' addrs := by
  unfold State.direct
  rw [same]
  split
  next none =>
    obtain ⟨slot, grown⟩ := placed.attach inode none
    have free : Disk.slots state.image (din i) (Disk.direct k) = 0 := by
      rw [slots_direct, none]
    exact ⟨_, _, rfl, {
      placed := grown
      slots := by
        rw [if_pos free]
        exact slot
      others := fun _ _ _ => rfl
      freeblock := by rw [if_pos free]
      freeinode := rfl
      length := rfl
      low := fun _ _ => rfl }⟩
  next some_ =>
    refine ⟨state, (din i).addrs, ?_, .refl placed ?_⟩
    · rw [← same]
    · rw [slots_direct]
      exact some_

theorem indirect_ensured (placed : Placed state.image state.freeblock inodes din file)
    (inode : i < inodes) (m : Fin nindirect) (table : (din i).addrs (Fin.last ndirect) ≠ 0)
    (onDisk : (din i).addrs (Fin.last ndirect) < state.length) (fits : state.freeblock < 2 ^ 32) :
    ∃ state', state.indirect ((din i).addrs (Fin.last ndirect)) m =
      some (state', Disk.slots state'.image (din i) (Disk.indirect m)) ∧
      Ensured inodes din file i (Disk.indirect m) state state' (din i).addrs := by
  unfold State.indirect rsect
  rw [if_pos onDisk, Option.bind_eq_bind, Option.bind_some]
  have entry := slots_indirect state.image (din i) m
  rw [if_neg table] at entry
  split
  next none =>
    obtain ⟨slot, others, grown⟩ :=
      placed.attachIndirect inode rfl table none fits
    rw [none] at entry
    have mine : Disk.slots state.image (din i) indirectBlock =
        (din i).addrs (Fin.last ndirect) := slots_direct ..
    have range := placed.taken.range inode (mine ▸ table)
    refine ⟨{ state with freeblock := state.freeblock + 1 }.wsect ((din i).addrs (Fin.last ndirect))
      ((state.image ((din i).addrs (Fin.last ndirect))).setWord (4 * m)
        state.freeblock), ?_, {
      placed := by
        rw [update_eq_self]
        exact grown
      slots := by
        rw [if_pos entry]
        exact slot
      others := by exact others
      freeblock := by rw [if_pos entry]; rfl
      freeinode := rfl
      length := ?_
      low := ?_ }⟩
    · refine congrArg some (Prod.ext rfl ?_)
      exact ((congrFun slot _).trans (update_self ..)).symm
    · exact Nat.max_eq_left onDisk
    · intro b early
      refine update_of_ne ?_ ..
      rw [← mine]
      omega
  next some_ =>
    refine ⟨state, ?_, .refl placed ?_⟩
    · rw [entry]
    · rw [entry]
      exact some_

end Ensured

/-! The block at the end of a file. -/

structure Found (inodes : Nat) (din : Nat → Inode)
    (file : Nat → List UInt8) (i off x : Nat) (state state' : State)
    (addrs : Fin (ndirect + 1) → Nat) : Prop where
  placed : Placed state'.image state'.freeblock inodes
    (update din i { din i with addrs := addrs }) file
  exact_ : Exact (off + 1) (Disk.slots state'.image { din i with addrs := addrs })
  others : ∀ j, j < inodes → j ≠ i →
    Disk.slots state'.image (din j) = Disk.slots state.image (din j)
  count : state'.freeblock + blocksFor off = state.freeblock + blocksFor (off + 1)
  here : ∀ range : off / bsize < maxfile, Disk.slots state'.image { din i with addrs := addrs }
      (dataSlot ⟨off / bsize, range⟩) = x
  /-- If the block is inside the file system, all others are. -/
  last : x < fssize → state'.freeblock ≤ fssize
  freeinode : state'.freeinode = state.freeinode
  length : state'.length = state.length
  low : ∀ b, b < nmeta → state'.image b = state.image b

section Found

variable {inodes i off : Nat} {din : Nat → Inode} {file : Nat → List UInt8} {state : State}

section

variable (placed : Placed state.image state.freeblock inodes din file)

include placed

theorem fileBlock_direct
    (inode : i < inodes) (exact_ : Exact off (slots state.image (din i)))
    (room : state.freeblock ≤ fssize)
    (same : d.addrs = (din i).addrs) (small : off / bsize < ndirect) :
    ∃ state' addrs x, state.fileBlock d (off / bsize) =
        some (state', { d with addrs := addrs }, x) ∧
      Found inodes din file i off x state state' addrs := by
  have range : off / bsize < maxfile := small.trans (by decide)
  have place : dataSlot ⟨off / bsize, range⟩ =
      Disk.direct ⟨off / bsize, Nat.lt_succ_of_lt small⟩ := dif_pos small
  obtain ⟨state', addrs, taken, ensured⟩ := direct_ensured placed inode same
    ⟨off / bsize, Nat.lt_succ_of_lt small⟩
  have there := ensured.there placed.taken.start
  have none := exact_.none range
  rw [← place] at ensured there
  refine ⟨state', addrs, slots state'.image { din i with addrs := addrs }
      (dataSlot ⟨off / bsize, range⟩), ?_, {
    placed := ensured.placed
    exact_ := exact_.step range ?_ ?_
    others := ensured.others
    count := ?_
    here := fun _ => rfl
    last := ?_
    freeinode := ensured.freeinode
    length := ensured.length
    low := ensured.low }⟩
  · unfold fileBlock
    rw [dif_pos small]
    simp only [taken]
    rw [place, slots_direct]
  · intro bn
    by_cases last : bn = ⟨off / bsize, range⟩
    · rw [last]
      exact ⟨fun _ => .inr rfl, fun _ => there⟩
    · rw [ensured.other _ fun equal => last (dataSlot_inj equal)]
      exact ⟨.inl, fun either => either.resolve_right last⟩
  · rw [ensured.other _ (dataSlot_ne_indirectBlock _).symm]
    exact ⟨.inl, fun either => either.resolve_right (Nat.not_le.mpr small)⟩
  · rw [ensured.freeblock]
    split
    next free =>
      rw [blocksFor_next (none.mp free) ?_]
      · omega
      · rintro rfl
        exact absurd small (by decide)
    next full =>
      have started : off % bsize ≠ 0 := fun zero => full (none.mpr zero)
      rw [blocksFor_inside started (by simp only [bsize]; omega)]
      omega
  · intro inside
    rw [ensured.freeblock]
    rw [ensured.slots] at inside
    split
    next free =>
      rw [if_pos free, update_self] at inside
      omega
    next => omega

theorem fileBlock_indirect
    (inode : i < inodes) (exact_ : Exact off (slots state.image (din i)))
    (length : state.length = fssize) (room : state.freeblock ≤ fssize)
     (same : d.addrs = (din i).addrs)
    (range : off / bsize < maxfile) (large : ¬off / bsize < ndirect) :
    (state.fileBlock d (off / bsize) = none ∧
      fssize + blocksFor off < state.freeblock + blocksFor (off + 1)) ∨
    ∃ state' addrs x, state.fileBlock d (off / bsize) =
        some (state', { d with addrs := addrs }, x) ∧
      Found inodes din file i off x state state' addrs := by
  have bound : off / bsize - ndirect < nindirect := by
    simp only [maxfile, ndirect, nindirect, bsize] at range large ⊢
    omega
  have place : dataSlot ⟨off / bsize, range⟩ =
      Disk.indirect ⟨off / bsize - ndirect, bound⟩ := dif_neg large
  obtain ⟨middle, addrs, taken, ensured⟩ :=
    direct_ensured placed inode same (Fin.last ndirect)
  change Ensured inodes din file i indirectBlock state middle addrs at ensured
  have mine : slots state.image (din i) indirectBlock =
      (din i).addrs (Fin.last ndirect) := slots_direct ..
  have there := ensured.there placed.taken.start
  rw [indirectBlock, slots_direct] at there
  have fresh := ensured.freeblock
  have table := exact_.table_none large
  have none := exact_.none range
  have unfolded : state.fileBlock d (off / bsize) = (middle.indirect (addrs (Fin.last ndirect))
        (off / bsize - ndirect)).bind fun found =>
          some (found.1, { d with addrs := addrs }, found.2) := by
    unfold fileBlock
    rw [dif_neg large]
    simp only [taken]
    rfl
  rw [unfolded]
  by_cases onDisk : addrs (Fin.last ndirect) < middle.length
  · right
    have fits : middle.freeblock < 2 ^ 32 := by
      rw [fresh]
      simp only [fssize] at room
      split <;> omega
    have family : update din i { din i with addrs := addrs } i =
        { din i with addrs := addrs } := update_self ..
    obtain ⟨state', found, entry⟩ :=
      indirect_ensured ensured.placed inode ⟨off / bsize - ndirect, bound⟩
        (by rw [family]; exact there) (by rw [family]; exact onDisk) fits
    have there' := entry.there ensured.placed.taken.start
    have kept := entry.other
    have slots' := entry.slots
    have grown := entry.placed
    have freeblock := entry.freeblock
    rw [family] at found
    simp only [family] at there' kept slots' grown freeblock
    rw [update_idem] at grown
    rw [← place] at there' kept slots' freeblock found
    have others : ∀ j, j < inodes → j ≠ i →
        slots state'.image (din j) = slots state.image (din j) := by
      intro j known other
      have later := entry.others j known other
      rw [update_of_ne other] at later
      exact later.trans (ensured.others j known other)
    have old : ∀ bn, slots middle.image { din i with addrs := addrs }
        (dataSlot bn) = slots state.image (din i) (dataSlot bn) :=
      fun bn => ensured.other _ (dataSlot_ne_indirectBlock bn)
    rw [old] at freeblock
    refine ⟨state', addrs, slots state'.image { din i with addrs := addrs }
      (dataSlot ⟨off / bsize, range⟩), ?_, {
      placed := grown
      exact_ := exact_.step range ?_ ?_
      others := others
      count := ?_
      here := fun _ => rfl
      last := ?_
      freeinode := entry.freeinode.trans ensured.freeinode
      length := entry.length.trans ensured.length
      low := fun b early => (entry.low b early).trans (ensured.low b early) }⟩
    · rw [found]
      rfl
    · intro bn
      by_cases last : bn = ⟨off / bsize, range⟩
      · rw [last]
        exact ⟨fun _ => .inr rfl, fun _ => there'⟩
      · rw [kept _ fun equal => last (dataSlot_inj equal), old]
        exact ⟨.inl, fun either => either.resolve_right last⟩
    · rw [kept _ (dataSlot_ne_indirectBlock _).symm, indirectBlock, slots_direct]
      exact ⟨fun _ => .inr (Nat.not_lt.mp large), fun _ => there⟩
    · rw [freeblock, fresh]
      by_cases boundary : off % bsize = 0
      · rw [if_pos (none.mpr boundary)]
        by_cases first : off = ndirect * bsize
        · rw [if_pos (table.mpr first), first, blocksFor_table]
          omega
        · rw [if_neg (first ∘ table.mp), blocksFor_next boundary first]
          omega
      · have later : off ≠ ndirect * bsize := fun first =>
          boundary (first ▸ rfl)
        rw [if_neg (boundary ∘ none.mp), if_neg (later ∘ table.mp),
          blocksFor_inside boundary (by simp only [bsize]; omega)]
        omega
    · intro inside
      rw [freeblock, fresh]
      rw [slots', old] at inside
      by_cases free : slots state.image (din i) (dataSlot ⟨off / bsize, range⟩) = 0
      · rw [if_pos free, update_self, fresh] at inside
        rw [if_pos free]
        omega
      · have later : off ≠ ndirect * bsize := fun first =>
          free (none.mpr (first ▸ rfl))
        rw [if_neg free, if_neg (later ∘ table.mp)]
        exact room
  · left
    have first : slots state.image (din i) indirectBlock = 0 := by
      by_contra full
      have range := (placed.taken.range inode full).2
      rw [ensured.length, length] at onDisk
      have value := congrFun ensured.slots indirectBlock
      rw [if_neg full] at value
      rw [← value, indirectBlock, slots_direct] at range
      exact onDisk (range.trans_le room)
    constructor
    · unfold State.indirect rsect
      rw [if_neg onDisk]
      rfl
    · have value := congrFun ensured.slots indirectBlock
      rw [if_pos first, update_self, indirectBlock, slots_direct] at value
      change addrs (Fin.last ndirect) = _ at value
      rw [value, ensured.length, length] at onDisk
      rw [table.mp first, blocksFor_table]
      omega

theorem fileBlock_spec
    (inode : i < inodes) (exact_ : Exact off (slots state.image (din i)))
    (length : state.length = fssize) (room : state.freeblock ≤ fssize)
     (same : d.addrs = (din i).addrs) (range : off / bsize < maxfile) :
    (state.fileBlock d (off / bsize) = none ∧
      fssize + blocksFor off < state.freeblock + blocksFor (off + 1)) ∨
    ∃ state' addrs x, state.fileBlock d (off / bsize) =
        some (state', { d with addrs := addrs }, x) ∧
      Found inodes din file i off x state state' addrs := by
  by_cases small : off / bsize < ndirect
  · exact .inr (fileBlock_direct placed inode exact_ room same small)
  · exact fileBlock_indirect placed inode exact_ length room same range small

end

end Found

/-! The loop of iappend(). -/

structure Appended (inodes : Nat) (din : Nat → Inode)
    (file : Nat → List UInt8) (i off : Nat) (p : List UInt8)
    (state state' : State) (addrs : Fin (ndirect + 1) → Nat) : Prop where
  placed : Placed state'.image state'.freeblock inodes (update din i
      { din i with addrs := addrs, size := off + p.length }) (update file i (file i ++ p))
  exact_ : Exact (off + p.length) (Disk.slots state'.image { din i with addrs := addrs })
  others : ∀ j, j < inodes → j ≠ i →
    Disk.slots state'.image (din j) = Disk.slots state.image (din j)
  count : state'.freeblock + blocksFor off = state.freeblock + blocksFor (off + p.length)
  room : state'.freeblock ≤ fssize
  freeinode : state'.freeinode = state.freeinode
  length : state'.length = state.length
  low : ∀ b, b < nmeta → state'.image b = state.image b

def Fits (freeblock off count : Nat) : Prop :=
  off + count ≤ maxfile * bsize ∧ freeblock + blocksFor (off + count) ≤ fssize + blocksFor off

section Append

variable {inodes i off : Nat} {din : Nat → Inode} {file : Nat → List UInt8}
  {state : State} {p : List UInt8}

theorem Appended.nil (placed : Placed state.image state.freeblock inodes din file)
    (size : (din i).size = off) (exact_ : Exact off (slots state.image (din i)))
    (room : state.freeblock ≤ fssize) :
    Appended inodes din file i off [] state state (din i).addrs where
  placed := by
    rw [List.append_nil, update_eq_self, List.length_nil, Nat.add_zero, ← size, update_eq_self]
    exact placed
  exact_ := exact_
  others := fun _ _ _ => rfl
  count := rfl
  room := room
  freeinode := rfl
  length := rfl
  low := fun _ _ => rfl

theorem Appended.cons
    (found : Found inodes din file i off x state middle addrs)
    (range : x < middle.length) (start : nmeta ≤ x)
    (positive : 0 < p.length) (inside : off % bsize + p.length ≤ bsize)
    (written : ∀ j, j < inodes → j ≠ i →
      Disk.slots (middle.wsect x ((middle.image x).setBytes (off % bsize)
        p)).image (din j) = Disk.slots middle.image (din j)) (appended : Appended inodes
      (update (update din i { din i with addrs := addrs })
        i { din i with addrs := addrs, size := off + p.length })
      (update file i (file i ++ p)) i (off + p.length) rest
      (middle.wsect x ((middle.image x).setBytes (off % bsize) p)) state' addrs') :
    Appended inodes din file i off (p ++ rest) state state' addrs' where
  placed := by
    have placed := appended.placed
    simp only [update_self, update_idem,
      List.append_assoc, Nat.add_assoc, ← List.length_append] at placed
    exact placed
  exact_ := by
    have exact_ := appended.exact_
    simp only [update_self, Nat.add_assoc, ← List.length_append] at exact_
    exact exact_
  others := by
    intro j known other
    have later := appended.others j known other
    rw [update_of_ne other, update_of_ne other] at later
    exact (later.trans (written j known other)).trans (found.others j known other)
  count := by
    have count := appended.count
    have stretch := blocksFor_stretch positive inside
    have first := found.count
    rw [Nat.add_assoc, ← List.length_append] at count
    change _ = middle.freeblock + _ at count
    omega
  room := appended.room
  freeinode := appended.freeinode.trans found.freeinode
  length := appended.length.trans ((Nat.max_eq_left range).trans found.length)
  low := by
    intro b early
    rw [appended.low b early]
    refine (update_of_ne ?_ ..).trans (found.low b early)
    omega

theorem iappendLoop_spec (enough : p.length ≤ rounds)
    (placed : Placed state.image state.freeblock inodes din file)
    (inode : i < inodes) (size : (din i).size = off)
    (exact_ : Exact off (slots state.image (din i)))
    (length : state.length = fssize) (room : state.freeblock ≤ fssize)
     (same : d.addrs = (din i).addrs) : (iappendLoop rounds state d off p = none ∧
      ¬Fits state.freeblock off p.length) ∨ ∃ state' addrs, iappendLoop rounds state d off p =
        some (state', { d with addrs := addrs }, off + p.length) ∧
      Appended inodes din file i off p state state' addrs := by
  induction rounds generalizing state din file d off p with
  | zero =>
    have empty : p = [] := List.length_eq_zero_iff.mp (by omega)
    subst empty
    refine .inr ⟨state, (din i).addrs, ?_, .nil placed size exact_ room⟩
    rw [iappendLoop, ← same]
    rfl
  | succ rounds induction =>
    rw [iappendLoop]
    by_cases empty : p = []
    · subst empty
      refine .inr ⟨state, (din i).addrs, ?_, .nil placed size exact_ room⟩
      rw [if_pos rfl, ← same]
      rfl
    have some_ : 0 < p.length := List.length_pos_iff.mpr empty
    rw [if_neg empty]
    by_cases range : off / bsize < maxfile
    case neg =>
      refine .inl ⟨if_neg range, fun fits => ?_⟩
      have bound := fits.1
      simp only [bsize, maxfile] at range bound
      omega
    rw [if_pos range]
    rcases fileBlock_spec placed inode exact_ length room same range with
      ⟨none, full⟩ | ⟨middle, addrs, x, taken, found⟩
    · refine .inl ⟨?_, fun fits => ?_⟩
      · rw [none]
        rfl
      · have more : blocksFor (off + 1) ≤ blocksFor (off + p.length) :=
          blocksFor_mono (by omega)
        have bound := fits.2
        omega
    rw [taken]
    have here := found.here range
    have there := (found.exact_.data ⟨off / bsize, range⟩).mpr (by
      simp only [bsize]
      omega)
    rw [here] at there
    have family : update din i { din i with addrs := addrs } i =
        { din i with addrs := addrs } := update_self ..
    rw [← family] at here
    have area := found.placed.taken.range inode (here ▸ there)
    rw [here] at area
    by_cases onDisk : x < middle.length
    case neg =>
      refine .inl ⟨?_, fun fits => ?_⟩
      · simp only [Option.bind_eq_bind, Option.bind_some, rsect, if_neg onDisk, Option.bind_none]
      · have more : blocksFor (off + 1) ≤ blocksFor (off + p.length) :=
          blocksFor_mono (by omega)
        have bound := fits.2
        have count := found.count
        rw [found.length, length] at onDisk
        omega
    simp only [Option.bind_eq_bind, Option.bind_some, rsect, if_pos onDisk]
    have start : off - off / bsize * bsize = off % bsize := by
      simp only [bsize]
      omega
    rw [start]
    -- The bytes that go to this block, and the others.
    generalize chunk : min p.length ((off / bsize + 1) * bsize - off) = n1
    have parts := (List.take_append_drop n1 p).symm
    have piece : (p.take n1).length = n1 := by
      rw [List.length_take]
      omega
    generalize p.take n1 = first at parts piece ⊢
    generalize p.drop n1 = rest at parts ⊢
    subst piece parts
    rw [List.length_append] at chunk enough some_ ⊢
    have progress : 0 < first.length := by
      simp only [bsize] at chunk
      omega
    have inside : off % bsize + first.length ≤ bsize := by
      simp only [bsize] at chunk ⊢
      omega
    obtain ⟨kept, written⟩ := found.placed.append inode
      (by rw [family]; exact size) range here there inside
    have slots' := kept i inode
    rw [family] at slots' written
    have whole := found.exact_.stretch progress inside
    rw [← slots'] at whole
    have others : ∀ j, j < inodes → j ≠ i →
        slots (middle.wsect x ((middle.image x).setBytes (off % bsize)
          first)).image (din j) = slots middle.image (din j) := by
      intro j known other
      have same := kept j known
      rw [update_of_ne other] at same
      exact same
    have written : Placed (middle.wsect x ((middle.image x).setBytes (off % bsize) first)).image
      (middle.wsect x ((middle.image x).setBytes (off % bsize) first)).freeblock _ _ _ := written
    rw [← Nat.add_assoc]
    rcases induction (p := rest) (d := { d with addrs := addrs }) (by omega) written
      (show _ = off + first.length by rw [update_self])
      (by rw [update_self]; exact whole)
      ((Nat.max_eq_left onDisk).trans (found.length.trans length))
      (found.last (by rw [found.length, length] at onDisk; exact onDisk))
      (by rw [update_self]) with
      ⟨none, unfit⟩ | ⟨state', addrs', done, appended⟩
    · refine .inl ⟨none, fun fits => unfit ⟨?_, ?_⟩⟩
      · rw [Nat.add_assoc]
        exact fits.1
      · have stretch := blocksFor_stretch progress inside
        have count := found.count
        have bound := fits.2
        rw [← Nat.add_assoc] at bound
        change middle.freeblock + _ ≤ _
        omega
    · exact .inr ⟨state', addrs', done, .cons found onDisk area.1 progress inside others appended⟩

end Append

end State

end Mkfs

end Xv6Lottery.Disk
