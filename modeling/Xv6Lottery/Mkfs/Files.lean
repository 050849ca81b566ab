import Xv6Lottery.Mkfs.Append

/-! The image between the calls of mkfs, and what each call does to it. -/

namespace Xv6Lottery.Disk

open Function

namespace Mkfs

theorem bmapstart_lt : sb.bmapstart < nmeta := by decide

theorem nmeta_lt : nmeta < fssize := by decide

theorem Placed.congr (placed : Placed image freeblock inodes din file)
    (same : ∀ b, nmeta ≤ b → image' b = image b) :
    (∀ i, i < inodes → slots image' (din i) = slots image (din i)) ∧
      Placed image' freeblock inodes din file := by
  have data : ∀ {i place}, i < inodes → slots image (din i) place ≠ 0 →
      image' (slots image (din i) place) = image (slots image (din i) place) :=
    fun known claimed => same _ (placed.taken.range known claimed).1
  have places : ∀ i, i < inodes → slots image' (din i) = slots image (din i) := by
    intro i known
    refine slots_congr fun claimed => ?_
    rw [← slots_direct image (din i)] at claimed ⊢
    exact data known claimed
  refine ⟨places, ?_, ?_, ?_, ?_, ?_⟩
  case refine_1 => exact placed.taken.congr places
  case refine_2 =>
    intro b late
    rw [same b (placed.taken.start.trans late)]
    exact placed.fresh late
  case refine_3 =>
    intro i known
    rw [places i known]
    exact placed.noHoles known
  case refine_4 =>
    intro i known
    rw [← placed.files known]
    refine content_congr rfl (placed.noHoles known) fun bn there => ?_
    rw [places i known]
    exact data known there
  case refine_5 =>
    intro i known position beyond small
    rw [places i known]
    intro there
    rw [data known there]
    exact placed.slack known position beyond small there

/-- The inodes up to `freeinode` are on the image, with these files. -/
structure Sound (state : State) (file : Nat → List UInt8) : Prop where
  placed : Placed state.image state.freeblock state.freeinode (dinode sb state.image) file
  exact_ : ∀ i, i < state.freeinode →
    Exact (file i).length (slots state.image (dinode sb state.image i))
  count : state.freeblock = nmeta + ∑ i ∈ Finset.range state.freeinode, blocksFor (file i).length
  room : state.freeblock ≤ fssize
  length : state.length = fssize
  area : ∀ i, i < state.freeinode → sb.iblock i < sb.bmapstart
  allocated : ∀ i, 0 < i → i < state.freeinode → (dinode sb state.image i).type ≠ 0
  free : ∀ i, i = 0 ∨ state.freeinode ≤ i → sb.iblock i < sb.bmapstart →
    (dinode sb state.image i).type = 0

theorem content_length (image : Nat → Block) (ip : Inode) :
    (content image ip).length = ip.size := by
  unfold content
  rw [List.length_map, List.length_range]

namespace Sound

variable {state : State} {file : Nat → List UInt8} {i : Nat}

theorem size (sound : Sound state file) (inode : i < state.freeinode) :
    (dinode sb state.image i).size = (file i).length := by
  rw [← sound.placed.files inode, content_length]

theorem onDisk (sound : Sound state file) (area : sb.iblock inum < sb.bmapstart) :
    sb.iblock inum < state.length := by
  rw [sound.length]
  exact area.trans (bmapstart_lt.trans nmeta_lt)

end Sound

/-! winode(). -/

namespace State

def stored (state : State) (inum : Nat) (ip : Inode) : State :=
  state.wsect (sb.iblock inum) (Inode.store (state.image (sb.iblock inum)) (inum % ipb) ip)

theorem winode_stored {state : State} (onDisk : sb.iblock inum < state.length) :
    state.winode inum ip = some (state.stored inum ip) := by
  unfold winode rsect
  rw [if_pos onDisk]
  rfl

section Stored

variable {state : State} {inum : Nat} {ip : Inode}

theorem stored_length (onDisk : sb.iblock inum < state.length) :
    (state.stored inum ip).length = state.length :=
  Nat.max_eq_left onDisk

theorem stored_self (fits : ip.Fits) : dinode sb (state.stored inum ip).image inum = ip :=
  dinode_store_self fits

theorem stored_other (differs : j ≠ inum) :
    dinode sb (state.stored inum ip).image j = dinode sb state.image j :=
  dinode_store_other ip differs

theorem stored_data (area : sb.iblock inum < sb.bmapstart) (b : Nat)
    (data : nmeta ≤ b) : (state.stored inum ip).image b = state.image b := by
  have := bmapstart_lt
  exact update_of_ne (by omega) ..

end Stored

end State

/-! iappend(). -/

theorem Placed.fits (placed : Placed image freeblock inodes din file) (room : freeblock ≤ fssize)
    (inode : i < inodes) : (din i).Fits := by
  constructor
  · have small := (placed.noHoles inode).small
    exact small.trans_lt (by decide)
  · intro k
    by_cases none : (din i).addrs k = 0
    · rw [none]
      decide
    · rw [← slots_direct image (din i)] at none ⊢
      have range := placed.taken.range inode none
      simp only [fssize] at room
      omega

theorem Sound.iappend {state : State} (sound : Sound state file) (positive : 0 < i)
    (inode : i < state.freeinode) (p : List UInt8) :
    (state.iappend i p = none ∧ ¬State.Fits state.freeblock (file i).length p.length) ∨ ∃ state',
      state.iappend i p = some state' ∧ Sound state' (update file i (file i ++ p)) ∧
      state'.freeinode = state.freeinode := by
  have size := sound.size inode
  have area := sound.area i inode
  have onDisk := sound.onDisk area
  have read : state.rinode i = some (dinode sb state.image i) := by
    unfold State.rinode State.rsect
    rw [if_pos onDisk]
    rfl
  unfold State.iappend
  rw [read, Option.bind_eq_bind, Option.bind_some, size]
  rcases State.iappendLoop_spec (Nat.le_refl p.length) sound.placed inode size
      (sound.exact_ i inode) sound.length sound.room rfl with
    ⟨none, unfit⟩ | ⟨middle, addrs, done, appended⟩
  · refine .inl ⟨?_, unfit⟩
    rw [none]
    rfl
  rw [done, Option.bind_eq_bind, Option.bind_some]
  dsimp only
  generalize last : Inode.mk _ _ _ _ ((file i).length + p.length) _ = ip
  have family : update (dinode sb state.image) i ip i = ip :=
    update_self ..
  have placed := appended.placed
  have exact_ := appended.exact_
  rw [last] at placed
  have mine : slots middle.image ip = slots middle.image
      { dinode sb state.image i with addrs := addrs } := by
    rw [← last]
    exact slots_addrs rfl
  rw [← mine] at exact_
  have fits := placed.fits appended.room inode
  rw [family] at fits
  have onDisk' : sb.iblock i < middle.length := by
    rw [appended.length]
    exact onDisk
  -- The other dinodes, and this one.
  have unchanged : ∀ j, sb.iblock j < sb.bmapstart → j ≠ i →
      dinode sb (middle.stored i ip).image j = dinode sb state.image j := by
    intro j inside other
    rw [State.stored_other other]
    unfold dinode
    rw [appended.low _ (inside.trans bmapstart_lt)]
  have all : ∀ j, j < state.freeinode → dinode sb (middle.stored i ip).image j =
        update (dinode sb state.image) i ip j := by
    intro j known
    by_cases same : j = i
    · rw [same, family, State.stored_self fits]
    · rw [update_of_ne same, unchanged j (sound.area j known) same]
  have data : ∀ b, nmeta ≤ b → (middle.stored i ip).image b = middle.image b :=
    State.stored_data area
  obtain ⟨places, kept⟩ := placed.congr data
  refine .inr ⟨middle.stored i ip, State.winode_stored onDisk', ?_, appended.freeinode⟩
  have freeinode : (middle.stored i ip).freeinode = state.freeinode :=
    appended.freeinode
  constructor
  case placed =>
    rw [freeinode]
    exact {
      taken := kept.taken.congr fun j known => by rw [all j known]
      fresh := kept.fresh
      noHoles := fun known => by
        rw [all _ known]
        exact kept.noHoles known
      files := fun known => by
        rw [all _ known]
        exact kept.files known
      slack := fun known => by
        rw [all _ known]
        exact kept.slack known }
  case exact_ =>
    intro j known
    rw [freeinode] at known
    rw [all j known, places j known]
    by_cases same : j = i
    · rw [same, family, update_self, List.length_append]
      exact exact_
    · have before := sound.exact_ j known
      rw [update_of_ne same, update_of_ne same, appended.others j known same]
      exact before
  case count =>
    have sum := Tally.sum_update (Finset.range state.freeinode)
      (fun bytes : List UInt8 => blocksFor bytes.length) file
      (Finset.mem_range.mpr inode) (file i ++ p)
    have count := appended.count
    have before := sound.count
    rw [freeinode]
    rw [List.length_append] at sum
    change middle.freeblock = _
    omega
  case room => exact appended.room
  case length =>
    rw [State.stored_length onDisk', appended.length]
    exact sound.length
  case area =>
    intro j known
    exact sound.area j (freeinode ▸ known)
  case allocated =>
    intro j positive known
    rw [freeinode] at known
    rw [all j known]
    by_cases same : j = i
    · rw [same, family, ← last]
      exact sound.allocated i (same ▸ positive) inode
    · rw [update_of_ne same]
      exact sound.allocated j positive known
  case free =>
    intro j unused inside
    rw [freeinode] at unused
    rw [unchanged j inside (by omega)]
    exact sound.free j unused inside

/-! ialloc(). -/

theorem noHoles_zero (addr : AddrSlot → Nat) : NoHoles 0 addr where
  small := Nat.zero_le _
  filled := fun _ bound => (Nat.not_lt_zero _ bound).elim

theorem exact_zero : Exact 0 fun _ => 0 where
  data := fun bn => by simp
  table := by decide

theorem Sound.ialloc {state : State} (sound : Sound state file) (typed : type ≠ 0)
    (area : sb.iblock state.freeinode < sb.bmapstart) (positive : 0 < state.freeinode)
    (empty : file state.freeinode = []) :
    ∃ state', state.ialloc type = some (state.freeinode, state') ∧ Sound state' file ∧
      state'.freeinode = state.freeinode + 1 := by
  have onDisk := sound.onDisk area
  generalize new : { Inode.cleared type with nlink := 1 } = ip
  generalize last : State.stored
    { state with freeinode := state.freeinode + 1 } state.freeinode ip = state'
  have mine : dinode sb state'.image state.freeinode = ip := by
    rw [← last, ← new]
    exact State.stored_self (cleared_fits ..)
  have others : ∀ j, j ≠ state.freeinode → dinode sb state'.image j = dinode sb state.image j := by
    intro j known
    rw [← last]
    exact State.stored_other known
  have data : ∀ b, nmeta ≤ b → state'.image b = state.image b := by
    rw [← last]
    exact State.stored_data area
  have freeinode : state'.freeinode = state.freeinode + 1 := by
    rw [← last]
    rfl
  have freeblock : state'.freeblock = state.freeblock := by
    rw [← last]
    rfl
  have none : slots state'.image ip = fun _ => 0 :=
    slots_zero _ (by rw [← new]; rfl)
  have size : ip.size = 0 := by
    rw [← new]
    rfl
  obtain ⟨places, kept⟩ := sound.placed.congr data
  have split : ∀ {j}, j < state'.freeinode → j < state.freeinode ∨ j = state.freeinode := by
    intro j known
    rw [freeinode] at known
    omega
  refine ⟨state', ?_, ?_, freeinode⟩
  · have written : State.winode { state with freeinode := state.freeinode + 1 } state.freeinode ip =
          some state' := by
      rw [← last]
      exact State.winode_stored onDisk
    unfold State.ialloc
    rw [new]
    dsimp only
    rw [written]
    rfl
  constructor
  case placed =>
    constructor
    case taken =>
      rw [freeinode, freeblock]
      refine kept.taken.inode (fun place => ?_) (fun j known => ?_)
      · rw [mine, none]
      · rw [others j (by omega)]
    case fresh =>
      rw [freeblock]
      exact kept.fresh
    case noHoles =>
      intro j known
      rcases split known with old | rfl
      · rw [others j (by omega)]
        exact kept.noHoles old
      · rw [mine, size]
        exact noHoles_zero _
    case files =>
      intro j known
      rcases split known with old | rfl
      · rw [others j (by omega)]
        exact kept.files old
      · rw [mine, empty]
        exact List.length_eq_zero_iff.mp ((content_length ..).trans size)
    case slack =>
      intro j known
      rcases split known with old | rfl
      · rw [others j (by omega)]
        exact kept.slack old
      · intro position _ small there
        rw [mine, none] at there
        exact (there rfl).elim
  case exact_ =>
    intro j known
    rcases split known with old | rfl
    · rw [others j (by omega), places j old]
      exact sound.exact_ j old
    · rw [mine, none, empty]
      exact exact_zero
  case count =>
    rw [freeinode, freeblock, Finset.sum_range_succ, empty]
    exact sound.count
  case room =>
    rw [freeblock]
    exact sound.room
  case length =>
    rw [← last]
    exact (Nat.max_eq_left onDisk).trans sound.length
  case area =>
    intro j known
    rcases split known with old | rfl
    · exact sound.area j old
    · exact area
  case allocated =>
    intro j positive known
    rcases split known with old | rfl
    · rw [others j (by omega)]
      exact sound.allocated j positive old
    · rw [mine, ← new]
      exact typed
  case free =>
    intro j unused inside
    rw [freeinode] at unused
    rw [others j (by omega)]
    exact sound.free j (by omega) inside

/-! Before the first call. -/

theorem zeroed (count : Nat) :
    (List.range count).foldl (fun state i => State.wsect state i Block.zero)
      opened = { opened with length := count } := by
  induction count with
  | zero => rfl
  | succ count induction =>
    rw [List.range_succ, List.foldl_append, induction, List.foldl_cons, List.foldl_nil]
    unfold State.wsect opened
    simp only [State.mk.injEq, and_self, and_true]
    refine ⟨update_eq_self .., ?_⟩
    omega

theorem blank_image (other : b ≠ 1) : blank.image b = Block.zero := by
  unfold blank
  rw [zeroed]
  exact update_of_ne other ..

theorem blank_length : blank.length = fssize := by
  unfold blank
  rw [zeroed]
  rfl

theorem blank_freeinode : blank.freeinode = 1 := by
  unfold blank
  rw [zeroed]
  rfl

theorem blank_freeblock : blank.freeblock = nmeta := by
  unfold blank
  rw [zeroed]
  rfl

theorem blank_sound : Sound blank fun _ => [] := by
  have first : ∀ {i}, i < blank.freeinode → i = 0 := by
    intro i known
    rw [blank_freeinode] at known
    omega
  have unused : ∀ i, dinode sb blank.image i = Inode.load Block.zero (i % ipb) := by
    intro i
    have start : sb.inodestart ≤ sb.iblock i :=
      Superblock.inodestart_le_iblock i
    have late : 1 < sb.inodestart := by decide
    unfold dinode
    rw [blank_image (by omega)]
  have root := unused 0
  have size : (dinode sb blank.image 0).size = 0 := by
    rw [root]
    exact Block.word_zero _
  have none : slots blank.image (dinode sb blank.image 0) = fun _ => 0 := by
    refine slots_zero _ ?_
    rw [root]
    exact funext fun _ => Block.word_zero _
  constructor
  case placed =>
    constructor
    case taken =>
      refine ⟨blank_freeblock.ge, fun known claimed => ?_,
        fun known _ claimed => ?_, fun early late => ?_⟩
      · rw [first known, none] at claimed
        exact (claimed rfl).elim
      · rw [first known, none] at claimed
        exact (claimed rfl).elim
      · rw [blank_freeblock] at late
        omega
    case fresh =>
      intro b late
      rw [blank_freeblock] at late
      refine blank_image ?_
      rintro rfl
      exact absurd late (by decide)
    case noHoles =>
      intro i known
      rw [first known, size]
      exact noHoles_zero _
    case files =>
      intro i known
      rw [first known]
      exact List.length_eq_zero_iff.mp ((content_length ..).trans size)
    case slack =>
      intro i known position _ small there
      rw [first known, none] at there
      exact (there rfl).elim
  case exact_ =>
    intro i known
    rw [first known, none]
    exact exact_zero
  case count =>
    rw [blank_freeinode, blank_freeblock]
    rfl
  case room =>
    rw [blank_freeblock]
    decide
  case length => exact blank_length
  case area =>
    intro i known
    rw [first known]
    decide
  case allocated =>
    intro i positive known
    have := first known
    omega
  case free =>
    intro i _ _
    rw [unused i]
    simp only [Inode.load, Block.word_zero]
    rfl

end Mkfs

end Xv6Lottery.Disk
