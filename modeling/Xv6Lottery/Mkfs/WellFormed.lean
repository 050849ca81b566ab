import Xv6Lottery.Mkfs.Main

/-! When the image of mkfs is what the kernel assumes. -/

namespace Xv6Lottery.Disk

namespace Mkfs

def rootEntry (image : Nat → Block) (k : Nat) : List UInt8 :=
  ((content image (dinode sb image rootino)).drop (direntSize * k)).take direntSize

/-- What the kernel assumes of an image: bitmap, block numbers and sizes fit
together, the inodes are inside the superblock's, and root entries name inodes
in use. -/
structure WellFormed (state : State) : Prop where
  consistent : Consistent sb state.image
  inodes : ∀ inum, 0 < inum → inum < state.freeinode → inum < sb.ninodes
  entries : ∀ k, direntInum (rootEntry state.image k) ≠ 0 →
    direntInum (rootEntry state.image k) < sb.ninodes ∧ (dinode sb state.image
        (direntInum (rootEntry state.image k))).type ≠ 0

/-! The bitmap. -/

theorem bitmap_bit (count : Nat) (small : count ≤ bpb) (b : Nat) :
    (State.bitmap count).bit b = decide (b < count) := by
  unfold State.bitmap
  induction count with
  | zero =>
    rw [List.range_zero, List.foldl_nil]
    unfold Block.bit
    rw [Block.byte_zero]
    simp
  | succ count induction =>
    rw [List.range_succ, List.foldl_append, List.foldl_cons, List.foldl_nil]
    by_cases same : b = count
    · rw [same, Block.bit_setBit_self _ (by omega)]
      simp
    · rw [Block.bit_setBit_other _ (by omega) same, induction (by omega)]
      simp only [decide_eq_decide]
      omega

/-! The entries of the root directory. -/

theorem dirent_length (inum : Nat) (name : List UInt8) :
    (dirent inum name).length = direntSize := by
  unfold dirent direntSize
  simp only [List.length_append, List.length_cons, List.length_nil,
    List.length_take, List.length_replicate, dirsiz]
  omega

theorem direntInum_dirent (small : inum < 2 ^ 16) (name : List UInt8) :
    direntInum (dirent inum name) = inum := by
  simp only [direntInum, dirent, List.cons_append, List.nil_append,
    List.getElem?_cons_zero, List.getElem?_cons_succ, Option.getD_some, UInt8.toNat_ofNat']
  omega

theorem drop_take_flatMap {Piece : Type} (bytes : Piece → List UInt8)
     (widths : ∀ piece, (bytes piece).length = width)
    (pieces : List Piece) (rest : List UInt8) (k : Nat) :
    (((pieces.flatMap bytes) ++ rest).drop (width * k)).take width = match pieces[k]? with
      | some piece => bytes piece
      | none => (rest.drop (width * (k - pieces.length))).take width := by
  induction pieces generalizing k with
  | nil => rfl
  | cons piece more induction =>
    rw [List.flatMap_cons, List.append_assoc]
    cases k with
    | zero =>
      rw [Nat.mul_zero, List.drop_zero, List.getElem?_cons_zero]
      dsimp only
      rw [← widths piece, List.take_left]
    | succ k =>
      rw [Nat.mul_succ, Nat.add_comm (width * k), ← List.drop_drop,
        ← widths piece, List.drop_left, widths piece, induction k,
        List.getElem?_cons_succ, List.length_cons, Nat.add_sub_add_right]

def fileEntries : Nat → List Input → List (Nat × List UInt8)
  | _, [] => []
  | inum, input :: rest =>
    (inum, input.name) :: fileEntries (inum + 1) rest

def entries (files : List Input) : List (Nat × List UInt8) :=
  (rootino, [46]) :: (rootino, [46, 46]) :: fileEntries 2 files

theorem fileEntries_length (inum : Nat) (files : List Input) :
    (fileEntries inum files).length = files.length := by
  induction files generalizing inum with
  | nil => rfl
  | cons input rest induction =>
    rw [fileEntries, List.length_cons, List.length_cons, induction]

theorem entries_length (files : List Input) : (entries files).length = files.length + 2 :=
  congrArg (· + 2) (fileEntries_length 2 files)

theorem fileEntries_inum (member : entry ∈ fileEntries inum files) :
    inum ≤ entry.1 ∧ entry.1 < inum + files.length := by
  induction files generalizing inum with
  | nil => cases member
  | cons input rest induction =>
    rw [List.length_cons]
    rcases List.mem_cons.mp member with rfl | later
    · dsimp only
      omega
    · have bounds := induction later
      omega

theorem entries_inum (member : entry ∈ entries files) :
    0 < entry.1 ∧ entry.1 < files.length + 2 := by
  have first : 0 < rootino ∧ rootino < files.length + 2 :=
    ⟨by decide, by simp only [rootino]; omega⟩
  rcases List.mem_cons.mp member with rfl | member
  · exact first
  rcases List.mem_cons.mp member with rfl | member
  · exact first
  · have bounds := fileEntries_inum member
    omega

/-! The calls of main(). -/

theorem Op.appended_append (first second : List Op) (i : Nat) :
    Op.appended (first ++ second) i = Op.appended first i ++ Op.appended second i :=
  List.flatMap_append

theorem appended_reads (other : inum ≠ i) (reads : List (List UInt8)) :
    Op.appended (reads.map (.iappend inum)) i = [] := by
  induction reads with
  | nil => rfl
  | cons buf rest induction =>
    rw [List.map_cons, Op.appended_cons, induction]
    simp only [Op.appended, List.flatMap_cons, List.flatMap_nil, if_neg other, List.append_nil]

theorem appended_filesOps (later : rootino < inum) (files : List Input) :
    Op.appended (filesOps inum files) rootino = (fileEntries inum files).flatMap fun entry => dirent
      entry.1 entry.2 := by
  induction files generalizing inum with
  | nil => rfl
  | cons input rest induction =>
    rw [filesOps, Op.appended_append, induction (by omega), fileEntries,
      List.flatMap_cons, Input.ops, Op.appended_ialloc, Op.appended_cons, appended_reads (by omega)]
    simp only [Op.appended, List.flatMap_cons, List.flatMap_nil, if_true, List.append_nil]

theorem appended_mainOps (files : List Input) :
    Op.appended (mainOps files) rootino = (entries files).flatMap fun entry => dirent entry.1
      entry.2 := by
  rw [mainOps, Op.appended_ialloc]
  change dirent rootino [46] ++ (dirent rootino [46, 46] ++
    Op.appended (filesOps 2 files) rootino) = _
  rw [appended_filesOps (by decide)]
  rfl

theorem appended_mainOps_length (files : List Input) :
    (Op.appended (mainOps files) rootino).length = direntSize * (files.length + 2) := by
  have lengths : ∀ list : List (Nat × List UInt8),
      (list.flatMap fun entry => dirent entry.1 entry.2).length = direntSize * list.length := by
    intro list
    induction list with
    | nil => rfl
    | cons entry rest induction =>
      rw [List.flatMap_cons, List.length_append, induction, dirent_length,
        List.length_cons, Nat.mul_succ, Nat.add_comm]
  rw [appended_mainOps, lengths, entries_length]

theorem proper_reads (known : 0 < inum ∧ inum < next) (proper : Op.Proper next rest)
    (reads : List (List UInt8)) : Op.Proper next (reads.map (.iappend inum) ++ rest) := by
  induction reads with
  | nil => exact proper
  | cons buf more induction => exact ⟨known, induction⟩

theorem proper_filesOps (later : rootino < inum) (area : inum + files.length ≤ sb.ninodes) :
    Op.Proper inum (filesOps inum files) := by
  induction files generalizing inum with
  | nil => trivial
  | cons input rest induction =>
    rw [List.length_cons] at area
    change _ ≤ 200 at area
    refine ⟨by decide, ?_, ⟨by decide, by omega⟩, ?_⟩
    · change inum / 16 + 32 < 45
      omega
    · refine proper_reads (by omega) (induction (by omega) ?_) _
      change _ ≤ 200
      omega

theorem proper_mainOps (few : files.length < 199) : Op.Proper 1 (mainOps files) := by
  refine ⟨by decide, by decide, ⟨by decide, by decide⟩,
    ⟨by decide, by decide⟩, proper_filesOps (by decide) ?_⟩
  change 2 + files.length ≤ 200
  omega

/-! The image after the last two steps. -/

theorem exact_nil (exact_ : Exact 0 addr) : addr = fun _ => 0 := by
  have table : addr indirectBlock = 0 := by
    by_contra there
    have := exact_.table.mp there
    omega
  have data : ∀ bn, addr (dataSlot bn) = 0 := by
    intro bn
    by_contra there
    have := (exact_.data bn).mp there
    omega
  funext place
  rcases place_cases place with ⟨k, rfl⟩ | ⟨m, rfl⟩
  · by_cases last : k = Fin.last ndirect
    · rw [last]
      exact table
    · have small : (k : Nat) < ndirect := by
        have bound := k.isLt
        have other : (k : Nat) ≠ ndirect := fun same => last (Fin.ext same)
        omega
      have here := data ⟨k, small.trans (by decide)⟩
      rw [dataSlot, dif_pos small] at here
      exact here
  · have bound : ndirect + (m : Nat) < maxfile := by
      have := m.isLt
      simp only [maxfile, ndirect, nindirect, bsize] at this ⊢
      omega
    have here := data ⟨ndirect + m, bound⟩
    have large : ¬ndirect + (m : Nat) < ndirect := by omega
    rw [dataSlot, dif_neg large] at here
    simp only [Nat.add_sub_cancel_left] at here
    exact here

def fixed (ip : Inode) : Inode :=
  { ip with size := (ip.size / bsize + 1) * bsize }

structure Finished (state state' : State) : Prop where
  freeinode : state'.freeinode = state.freeinode
  data : ∀ b, nmeta ≤ b → state'.image b = state.image b
  root : dinode sb state'.image rootino = fixed (dinode sb state.image rootino)
  others : ∀ i, i ≠ rootino → sb.iblock i < sb.bmapstart →
    dinode sb state'.image i = dinode sb state.image i
  bitmap : state'.image sb.bmapstart = State.bitmap state.freeblock

theorem Sound.finish (sound : Sound state file) (some_ : rootino < state.freeinode) :
    ∃ state', finish state = some state' ∧ Finished state state' := by
  have area := sound.area rootino some_
  have onDisk := sound.onDisk area
  have bitmap := bmapstart_lt
  have fits : (fixed (dinode sb state.image rootino)).Fits := by
    have before := sound.placed.fits sound.room some_
    have small := (sound.placed.noHoles some_).small
    refine ⟨?_, before.addrs⟩
    simp only [fixed, maxfile, bsize] at small ⊢
    omega
  generalize stored : state.stored rootino (fixed (dinode sb state.image rootino)) = middle
  have root : state.fixRoot = some middle := by
    unfold State.fixRoot State.rinode State.rsect
    rw [if_pos onDisk, ← stored]
    exact State.winode_stored onDisk
  have free : middle.freeblock = state.freeblock := by
    rw [← stored]
    rfl
  have few : middle.freeblock < bpb := by
    rw [free]
    exact sound.room.trans_lt (by decide)
  refine ⟨middle.wsect sb.bmapstart (State.bitmap middle.freeblock), ?_, ?_⟩
  · unfold Mkfs.finish
    rw [root, Option.bind_eq_bind, Option.bind_some, State.balloc, if_pos few]
  have kept : ∀ b, b ≠ sb.bmapstart →
      (middle.wsect sb.bmapstart (State.bitmap middle.freeblock)).image b =
        middle.image b := fun b other => Function.update_of_ne other ..
  have dinodes : ∀ i, sb.iblock i < sb.bmapstart → dinode sb (middle.wsect sb.bmapstart
        (State.bitmap middle.freeblock)).image i = dinode sb middle.image i := by
    intro i inside
    unfold dinode
    rw [kept _ (by omega)]
  constructor
  case freeinode =>
    rw [← stored]
    rfl
  case data =>
    intro b late
    rw [kept b (by omega), ← stored]
    exact State.stored_data area b late
  case root =>
    rw [dinodes rootino area, ← stored]
    exact State.stored_self fits
  case others =>
    intro i other inside
    rw [dinodes i inside, ← stored]
    exact State.stored_other other
  case bitmap =>
    rw [← free]
    exact Function.update_self sb.bmapstart _ middle.image

section Finished

variable {state state' : State} {file : Nat → List UInt8}

theorem Finished.slots (finished : Finished state state') (sound : Sound state file)
    (known : i < state.freeinode) :
    slots state'.image (dinode sb state'.image i) =
      slots state.image (dinode sb state.image i) := by
  rw [← (sound.placed.congr finished.data).1 i known]
  by_cases root : i = rootino
  · rw [root, finished.root]
    exact slots_addrs rfl
  · rw [finished.others i root (sound.area i known)]

theorem Finished.type (finished : Finished state state') (inside : sb.iblock i < sb.bmapstart) :
    (dinode sb state'.image i).type = (dinode sb state.image i).type := by
  by_cases root : i = rootino
  · rw [root, finished.root]
    rfl
  · rw [finished.others i root inside]

theorem iblock_lt (inode : i < sb.ninodes) : sb.iblock i < sb.bmapstart := by
  change i < 200 at inode
  change i / 16 + 32 < 45
  omega

theorem Finished.addrOf (finished : Finished state state') (sound : Sound state file)
    (few : state.freeinode ≤ sb.ninodes) (i : Nat) :
    addrOf sb state'.image i = if 0 < i ∧ i < state.freeinode then Disk.slots state.image
      (dinode sb state.image i) else fun _ => 0 := by
  unfold Disk.addrOf contents
  by_cases inode : i < sb.ninodes
  · have type := finished.type (iblock_lt inode)
    rw [if_pos inode, type]
    by_cases known : 0 < i ∧ i < state.freeinode
    · rw [if_neg (sound.allocated i known.1 known.2), if_pos known, finished.slots sound known.2]
    · rw [if_pos (sound.free i (by omega) (iblock_lt inode)), if_neg known]
  · rw [if_neg inode, if_neg (by omega)]

theorem dataStart_eq : sb.dataStart = nmeta := by decide

section

variable (finished : Finished state state')

include finished

theorem Finished.used (sound : Sound state file)
    (onDisk : b < sb.size) : used sb state'.image b = decide (b < state.freeblock) := by
  change b < 2000 at onDisk
  have block : sb.bblock b = sb.bmapstart := by
    change b / 8192 + 45 = 45
    omega
  have bit : b % bpb = b := by
    change b % 8192 = b
    omega
  unfold Disk.used
  rw [block, bit, finished.bitmap, bitmap_bit _ (sound.room.trans (by decide))]

theorem Finished.consistent (sound : Sound state file)
    (few : state.freeinode ≤ sb.ninodes) (unused : file 0 = [])
    (some_ : rootino < state.freeinode) (started : (file rootino).length % bsize ≠ 0) :
    Consistent sb state'.image := by
  have addr := finished.addrOf sound few
  have claimed : ∀ {i place}, Disk.addrOf sb state'.image i place ≠ 0 →
      (0 < i ∧ i < state.freeinode) ∧ Disk.addrOf sb state'.image i =
          Disk.slots state.image (dinode sb state.image i) := by
    intro i place there
    rw [addr] at there ⊢
    split at there
    next known => exact ⟨known, if_pos known⟩
    · exact (there rfl).elim
  have taken := sound.placed.taken
  constructor
  case inside =>
    intro i place there
    obtain ⟨known, same⟩ := claimed there
    rw [same] at there ⊢
    have range := taken.range known.2 there
    rw [dataStart_eq]
    exact ⟨range.1, range.2.trans_le sound.room⟩
  case once =>
    intro i place j place' there equal
    obtain ⟨known, same⟩ := claimed there
    obtain ⟨known', same'⟩ := claimed (equal ▸ there)
    rw [same] at there equal
    rw [same'] at equal
    exact taken.once known.2 known'.2 there equal
  case used =>
    intro b onDisk
    rw [finished.used sound onDisk, decide_eq_true_iff, dataStart_eq]
    have start := taken.start
    constructor
    · intro inUse
      by_cases early : b < nmeta
      · exact .inl early
      · obtain ⟨i, known, place, same⟩ := taken.covers (by omega) inUse
        have positive : 0 < i := by
          by_contra zero
          have first : i = 0 := by omega
          subst first
          have none := sound.exact_ 0 known
          rw [unused] at none
          rw [exact_nil none] at same
          dsimp only at same
          have := nmeta_pos
          omega
        refine .inr ⟨i, place, ?_⟩
        rw [addr, if_pos ⟨positive, known⟩]
        exact same
    · rintro (early | ⟨i, place, rfl⟩)
      · omega
      · by_cases none : Disk.addrOf sb state'.image i place = 0
        · have := nmeta_pos
          omega
        · obtain ⟨known, same⟩ := claimed none
          rw [same] at none ⊢
          exact (taken.range known.2 none).2
  case noHoles =>
    intro i inode type
    have known : 0 < i ∧ i < state.freeinode := by
      by_contra free
      rw [finished.type (iblock_lt inode)] at type
      exact type (sound.free i (by omega) (iblock_lt inode))
    rw [addr, if_pos known]
    have noHoles := sound.placed.noHoles known.2
    by_cases root : i = rootino
    · subst root
      have size := sound.size some_
      rw [finished.root]
      change NoHoles (((dinode sb state.image rootino).size / bsize + 1) * bsize) _
      rw [size]
      rw [size] at noHoles
      have small := noHoles.small
      refine ⟨?_, fun bn bound => noHoles.filled bn ?_⟩
      · simp only [maxfile, bsize] at small started ⊢
        omega
      · simp only [bsize] at bound started ⊢
        omega
    · rw [finished.others i root (iblock_lt inode)]
      exact noHoles

theorem Finished.hole (sound : Sound state file)
    (few : state.freeinode ≤ sb.ninodes) (some_ : rootino < state.freeinode)
    (boundary : (file rootino).length % bsize = 0) : ¬Consistent sb state'.image := by
  intro consistent
  have type : (dinode sb state'.image rootino).type ≠ 0 := by
    rw [finished.root]
    exact sound.allocated rootino (by decide) some_
  have noHoles := consistent.noHoles rootino (by decide) type
  rw [finished.root, finished.addrOf sound few, if_pos ⟨by decide, some_⟩] at noHoles
  change NoHoles (((dinode sb state.image rootino).size / bsize + 1) * bsize) _ at noHoles
  rw [sound.size some_] at noHoles
  have range : (file rootino).length / bsize < maxfile := by
    have small := noHoles.small
    simp only [maxfile, bsize] at small ⊢
    omega
  have there := noHoles.filled ⟨(file rootino).length / bsize, range⟩ (by
    simp only [bsize]
    omega)
  have inside := ((sound.exact_ rootino some_).data _).mp there
  simp only [bsize] at inside boundary
  omega

theorem Finished.content (sound : Sound state file)
    (some_ : rootino < state.freeinode) (started : (file rootino).length % bsize ≠ 0) :
    ∃ pad, content state'.image (dinode sb state'.image rootino) =
      file rootino ++ List.replicate pad 0 := by
  obtain ⟨_, placed⟩ := sound.placed.congr finished.data
  have size := sound.size some_
  have there := (sound.exact_ rootino some_).data
  have places := finished.slots sound some_
  have kept := (sound.placed.congr finished.data).1 rootino some_
  rw [finished.root] at places ⊢
  refine ⟨bsize - (file rootino).length % bsize, ?_⟩
  have total : (fixed (dinode sb state.image rootino)).size =
      (file rootino).length + (bsize - (file rootino).length % bsize) := by
    simp only [fixed, size, bsize]
    omega
  have whole : Disk.content state'.image (fixed (dinode sb state.image rootino)) =
        fileBytes state'.image (Disk.slots state'.image (dinode sb state.image rootino)) 0
          ((file rootino).length + (bsize - (file rootino).length % bsize)) := by
    simp only [Disk.content, fileBytes, Nat.zero_add, total, places, kept]
  have first : file rootino = fileBytes state'.image
      (Disk.slots state'.image (dinode sb state.image rootino)) 0 (file rootino).length := by
    rw [← placed.files some_]
    simp only [Disk.content, fileBytes, Nat.zero_add, List.length_map, List.length_range]
  rw [whole, fileBytes_append, ← first, Nat.zero_add]
  congr 1
  refine List.eq_replicate_iff.mpr ⟨?_, fun byte member => ?_⟩
  · rw [fileBytes, List.length_map, List.length_range]
  · obtain ⟨index, bound, rfl⟩ := List.mem_map.mp member
    have inside := List.mem_range.mp bound
    have quotient : ((file rootino).length + index) / bsize = (file rootino).length / bsize := by
      simp only [bsize] at inside ⊢
      omega
    unfold fileByte
    split
    next small =>
      refine placed.slack some_ _ (by omega) small ?_
      rw [kept]
      refine (there _).mpr ?_
      simp only [quotient]
      simp only [bsize] at started ⊢
      omega
    · rfl

end

end Finished

/-! main(). -/

theorem finish_freeinode (done : finish state = some state') :
    state'.freeinode = state.freeinode := by
  unfold finish at done
  rw [Option.bind_eq_bind, Option.bind_eq_some_iff] at done
  obtain ⟨middle, root, done⟩ := done
  unfold State.fixRoot at root
  rw [Option.bind_eq_bind, Option.bind_eq_some_iff] at root
  obtain ⟨din, _, root⟩ := root
  have same := State.winode_freeinode root
  unfold State.balloc at done
  split at done
  · cases done
    exact same
  · cases done

theorem main_freeinode (done : main files = some state) : state.freeinode = files.length + 2 := by
  obtain ⟨_, middle, calls, last⟩ := main_some done
  rw [finish_freeinode last, Op.runAll_freeinode calls, blank_freeinode, inodes_mainOps]

/-- With few files, main() makes a sound image and finishes it. -/
theorem main_finished (done : main files = some state) (few : files.length < 199) :
    ∃ middle, Sound middle (Op.appended (mainOps files)) ∧ middle.freeinode = files.length + 2 ∧
      Finished middle state := by
  obtain ⟨_, middle, calls, last⟩ := main_some done
  have proper := proper_mainOps few
  rw [← blank_freeinode] at proper
  have start : 0 < blank.freeinode := by
    rw [blank_freeinode]
    decide
  rcases blank_sound.runAll proper start fun _ _ => rfl with
    ⟨none, _⟩ | ⟨middle', calls', sound, freeinode⟩
  · cases none.symm.trans calls
  · cases calls'.symm.trans calls
    rw [blank_freeinode, inodes_mainOps] at freeinode
    have root : rootino < middle.freeinode := by
      rw [freeinode]
      simp only [rootino]
      omega
    obtain ⟨state', last', finished⟩ := sound.finish root
    cases last'.symm.trans last
    exact ⟨middle, sound, freeinode, finished⟩

theorem Finished.entry (finished : Finished state state')
    (sound : Sound state (Op.appended (mainOps files)))
    (freeinode : state.freeinode = files.length + 2) (few : files.length < 199)
    (started : (Op.appended (mainOps files) rootino).length % bsize ≠ 0) (k : Nat)
    (there : direntInum (rootEntry state'.image k) ≠ 0) :
    0 < direntInum (rootEntry state'.image k) ∧ direntInum (rootEntry state'.image k) <
      files.length + 2 := by
  have root : rootino < state.freeinode := by
    rw [freeinode]
    simp only [rootino]
    omega
  obtain ⟨pad, bytes⟩ := finished.content sound root started
  have piece := drop_take_flatMap (fun entry : Nat × List UInt8 => dirent entry.1 entry.2)
    (fun entry => dirent_length entry.1 entry.2) (entries files) (List.replicate pad 0) k
  rw [← appended_mainOps, ← bytes] at piece
  change rootEntry state'.image k = _ at piece
  rw [piece] at there ⊢
  cases found : (entries files)[k]? with
  | some entry =>
    have bounds := entries_inum (List.mem_of_getElem? found)
    dsimp only
    rw [direntInum_dirent (by omega)]
    exact bounds
  | none =>
    rw [found] at there
    refine (there ?_).elim
    have zero : ∀ index : Nat, ((((List.replicate pad (0 : UInt8)).drop
        (direntSize * (k - (entries files).length))).take direntSize)[index]?).getD 0 = 0 := by
      intro index
      rw [List.drop_replicate, List.take_replicate, List.getElem?_replicate]
      split <;> rfl
    simp only [direntInum, zero]
    rfl

/-- The image is well formed unless there are too many inodes, or the root
directory ends with a block and grows by another. -/
theorem main_wellFormed_iff {files : List Input} {state : State} (done : main files = some state) :
    WellFormed state ↔ files.length < 199 ∧ (files.length + 2) % 64 ≠ 0 := by
  have total := main_freeinode done
  have length := appended_mainOps_length files
  constructor
  · intro wellFormed
    have few : files.length < 199 := by
      by_contra many
      have last := wellFormed.inodes 200 (by decide) (by omega)
      exact absurd last (by decide)
    refine ⟨few, fun boundary => ?_⟩
    obtain ⟨middle, sound, freeinode, finished⟩ := main_finished done few
    refine finished.hole sound ?_ ?_ ?_ wellFormed.consistent
    · change _ ≤ 200
      omega
    · simp only [rootino]
      omega
    · rw [length]
      simp only [direntSize, dirsiz, bsize]
      omega
  · rintro ⟨few, inside⟩
    obtain ⟨middle, sound, freeinode, finished⟩ := main_finished done few
    have small : middle.freeinode ≤ sb.ninodes := by
      change _ ≤ 200
      omega
    have root : rootino < middle.freeinode := by
      simp only [rootino]
      omega
    have started : (Op.appended (mainOps files) rootino).length % bsize ≠
        0 := by
      rw [length]
      simp only [direntSize, dirsiz, bsize]
      omega
    constructor
    case consistent =>
      exact finished.consistent sound small
        (Op.appended_outside (proper_mainOps few) (.inl rfl)) root started
    case inodes =>
      intro inum _ known
      rw [finished.freeinode] at known
      omega
    case entries =>
      intro k there
      have bounds := finished.entry sound freeinode few started k there
      have inode : direntInum (rootEntry state.image k) < sb.ninodes := by
        omega
      refine ⟨inode, ?_⟩
      rw [finished.type (iblock_lt inode)]
      exact sound.allocated _ bounds.1 (by omega)

/-! Some lists of files. -/

theorem main_returns (accepted : ∀ input ∈ files, input.Accepted) (few : files.length < 199)
    (within : Within (files.length + 2) (Op.appended (mainOps files))) :
    ∃ state, main files = some state := by
  rw [← inodes_mainOps] at within
  obtain ⟨middle, calls, sound, freeinode⟩ :=
    runAll_blank (proper_mainOps few) within
  have root : rootino < middle.freeinode := by
    rw [freeinode, inodes_mainOps]
    simp only [rootino]
    omega
  obtain ⟨state, last, _⟩ := sound.finish root
  refine ⟨state, ?_⟩
  rw [main_runAll accepted, calls]
  exact last

theorem within_of_bound (few : files.length < 199)
    (small : ∀ i < files.length + 2, (Op.appended (mainOps files) i).length ≤ maxfile * bsize)
    (total : nmeta + ∑ i ∈ Finset.range (files.length + 2),
      blocksFor (Op.appended (mainOps files) i).length ≤ fssize) :
    Within (files.length + 2) (Op.appended (mainOps files)) := by
  refine ⟨fun i => ?_, total⟩
  by_cases known : i < files.length + 2
  · exact small i known
  · rw [Op.appended_outside (proper_mainOps few) (.inr (by rw [inodes_mainOps]; omega))]
    exact Nat.zero_le _

def copies (count : Nat) : List Input :=
  List.replicate count ⟨userDir ++ [95, 97], some [[7, 8]]⟩

theorem copies_accepted (count : Nat) : ∀ input ∈ copies count, input.Accepted := by
  intro input member
  rw [List.eq_of_mem_replicate member]
  exact ⟨by decide, rfl, by decide⟩

theorem copies_length (count : Nat) : (copies count).length = count :=
  List.length_replicate

theorem one_file_wellFormed : ∃ state, main (copies 1) = some state ∧ WellFormed state := by
  obtain ⟨state, done⟩ := main_returns (copies_accepted 1)
    (by decide) (within_of_bound (by decide) (by decide +kernel)
      (by decide +kernel))
  exact ⟨state, done, (main_wellFormed_iff done).mpr ⟨by decide, by decide⟩⟩

/-- With 62 files the root directory has 64 entries, which fill its block. -/
theorem root_with_hole : ∃ state, main (copies 62) = some state ∧ ¬WellFormed state := by
  have length := copies_length 62
  obtain ⟨state, done⟩ := main_returns (copies_accepted 62)
    (by rw [length]; decide) (within_of_bound (by rw [length]; decide)
      (by decide +kernel) (by decide +kernel))
  refine ⟨state, done, fun wellFormed => ?_⟩
  obtain ⟨middle, sound, freeinode, finished⟩ :=
    main_finished done (by rw [length]; decide)
  rw [length] at freeinode
  refine finished.hole sound ?_ ?_ ?_ wellFormed.consistent
  · rw [freeinode]
    decide
  · rw [freeinode]
    decide
  · rw [appended_mainOps_length, length]
    decide

end Mkfs

end Xv6Lottery.Disk
