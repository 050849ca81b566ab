import Xv6Lottery.Log.Header

/-! The on-disk format of fs.h: the areas of the disk, the bitmap, dinodes and
directory entries, in the bytes of their blocks. -/

namespace Xv6Lottery

def rootdev : Nat := 1

def ndirect : Nat := 12

def nindirect : Nat := bsize / 4

def ipb : Nat := bsize / 64

def bpb : Nat := bsize * 8

namespace Block

def zero : Block := Vector.replicate bsize 0

theorem byte_zero (offset : Nat) : zero.byte offset = 0 := by
  unfold byte zero
  by_cases bound : offset < bsize
  · simp [bound]
  · simp [bound]

theorem word_zero (offset : Nat) : zero.word offset = 0 := by
  simp [word, byte_zero]

/-! Words that follow one another. -/

def setWords (block : Block) (offset : Nat) : List Nat → Block
  | [] => block
  | value :: rest => (block.setWord offset value).setWords (offset + 4) rest

theorem word_setWords_other (block : Block) (values : List Nat)
    (outside : other + 3 < offset ∨ offset + 4 * values.length ≤ other) :
    (block.setWords offset values).word other = block.word other := by
  induction values generalizing block offset with
  | nil => rfl
  | cons value rest induction =>
    rw [List.length_cons] at outside
    rw [setWords, induction _ (by omega),
      word_setWord_other _ _ (by omega)]

theorem word_setWords (block : Block) (fits : ∀ value ∈ values, value < 2 ^ 32)
    (room : offset + 4 * values.length ≤ bsize) (found : values[position]? = some value) :
    (block.setWords offset values).word (offset + 4 * position) = value := by
  induction values generalizing block offset position with
  | nil => cases found
  | cons first rest induction =>
    rw [List.length_cons] at room
    cases position with
    | zero =>
      rw [List.getElem?_cons_zero] at found
      cases found
      rw [setWords, word_setWords_other _ _ (by omega),
        Nat.mul_zero, Nat.add_zero, word_setWord_self _ (by omega) (fits _ (.head _))]
    | succ position =>
      rw [List.getElem?_cons_succ] at found
      have inside : ((block.setWord offset first).setWords (offset + 4)
          rest).word (offset + 4 + 4 * position) = value :=
        induction _ (fun value member => fits value (.tail _ member)) (by omega) found
      rw [setWords, ← inside]
      congr 1
      omega

/-! Bytes that follow one another. -/

def setBytes (block : Block) (offset : Nat) : List UInt8 → Block
  | [] => block
  | value :: rest => (block.setByte offset value).setBytes (offset + 1) rest

theorem byte_setBytes_other (block : Block) (values : List UInt8)
    (outside : other < offset ∨ offset + values.length ≤ other) :
    (block.setBytes offset values).byte other = block.byte other := by
  induction values generalizing block offset with
  | nil => rfl
  | cons value rest induction =>
    rw [List.length_cons] at outside
    rw [setBytes, induction _ (by omega), byte_setByte_other _ (by omega)]

theorem byte_setBytes (block : Block) (room : offset + values.length ≤ bsize)
    (found : values[position]? = some value) :
    (block.setBytes offset values).byte (offset + position) = value := by
  induction values generalizing block offset position with
  | nil => cases found
  | cons first rest induction =>
    rw [List.length_cons] at room
    cases position with
    | zero =>
      rw [List.getElem?_cons_zero] at found
      cases found
      rw [setBytes, byte_setBytes_other _ _ (by omega), Nat.add_zero,
        byte_setByte_self _ (by omega)]
    | succ position =>
      rw [List.getElem?_cons_succ] at found
      have inside : ((block.setByte offset first).setBytes (offset + 1)
          rest).byte (offset + 1 + position) = value :=
        induction _ (by omega) found
      rw [setBytes, ← inside]
      congr 1
      omega

def bytes (block : Block) (offset count : Nat) : List UInt8 :=
  (List.range count).map fun position => block.byte (offset + position)

/-! Bits of the bitmap. -/

def bit (block : Block) (bi : Nat) : Bool :=
  (block.byte (bi / 8)).toBitVec.getLsbD (bi % 8)

def setBit (block : Block) (bi : Nat) : Block :=
  block.setByte (bi / 8) ⟨(block.byte (bi / 8)).toBitVec ||| 1#8 <<< (bi % 8)⟩

def clearBit (block : Block) (bi : Nat) : Block :=
  block.setByte (bi / 8) ⟨(block.byte (bi / 8)).toBitVec &&& ~~~(1#8 <<< (bi % 8))⟩

theorem bit_change (block : Block) (value : UInt8) (bound : bi < bpb)
    (same : ∀ k, k < 8 → k ≠ bi % 8 → value.toBitVec.getLsbD k =
      (block.byte (bi / 8)).toBitVec.getLsbD k) (differs : other ≠ bi) :
    (block.setByte (bi / 8) value).bit other = block.bit other := by
  unfold bit
  by_cases sameByte : bi / 8 = other / 8
  · rw [← sameByte, byte_setByte_self _ (by
      simp only [bpb] at bound
      omega)]
    exact same (other % 8) (by omega) (by omega)
  · rw [byte_setByte_other _ sameByte]

theorem bit_setBit_self (block : Block) (bound : bi < bpb) : (block.setBit bi).bit bi = true := by
  unfold bit setBit
  rw [byte_setByte_self _ (by simp only [bpb] at bound; omega)]
  have small : bi % 8 < 8 := Nat.mod_lt _ (by decide)
  simp [small]

theorem bit_setBit_other (block : Block) (bound : bi < bpb) (differs : other ≠ bi) :
    (block.setBit bi).bit other = block.bit other := by
  refine bit_change block _ bound (fun k small differs => ?_) differs
  simp only [BitVec.getLsbD_or, BitVec.getLsbD_shiftLeft, small, decide_true, Bool.true_and]
  have off : (!decide (k < bi % 8) && (1#8).getLsbD (k - bi % 8)) = false := by
    by_cases before : k < bi % 8
    · simp [before]
    · simp [BitVec.getLsbD_one]
      omega
  rw [off, Bool.or_false]

end Block

namespace Disk

/-! Dinodes. -/

def tDir : BitVec 16 := 1

def tFile : BitVec 16 := 2

def tDevice : BitVec 16 := 3

/-- A `struct dinode`, and what ilock() copies of it. -/
structure Inode where
  type : BitVec 16
  major : BitVec 16
  minor : BitVec 16
  nlink : BitVec 16
  size : Nat
  addrs : Fin (ndirect + 1) → Nat
  deriving DecidableEq

namespace Inode

def cleared (type : BitVec 16) : Inode where
  type := type
  major := 0
  minor := 0
  nlink := 0
  size := 0
  addrs := fun _ => 0

structure Fits (ip : Inode) : Prop where
  size : ip.size < 2 ^ 32
  addrs : ∀ i, ip.addrs i < 2 ^ 32

def load (block : Block) (index : Nat) : Inode where
  type := .ofNat 16 (block.word (64 * index))
  major := .ofNat 16 (block.word (64 * index) / 2 ^ 16)
  minor := .ofNat 16 (block.word (64 * index + 4))
  nlink := .ofNat 16 (block.word (64 * index + 4) / 2 ^ 16)
  size := block.word (64 * index + 8)
  addrs := fun i => block.word (64 * index + 12 + 4 * i)

def words (ip : Inode) : List Nat :=
  [ip.type.toNat + 2 ^ 16 * ip.major.toNat, ip.minor.toNat + 2 ^ 16 * ip.nlink.toNat, ip.size] ++
    List.ofFn ip.addrs

def store (block : Block) (index : Nat) (ip : Inode) : Block :=
  block.setWords (64 * index) ip.words

theorem words_length (ip : Inode) : ip.words.length = 16 := by
  rw [words, List.length_append, List.length_ofFn]
  rfl

theorem words_fit {ip : Inode} (fits : ip.Fits) : ∀ value ∈ ip.words, value < 2 ^ 32 := by
  intro value member
  simp only [words, List.cons_append, List.nil_append, List.mem_cons, List.mem_ofFn] at member
  rcases member with rfl | rfl | rfl | ⟨i, rfl⟩
  · omega
  · omega
  · exact fits.size
  · exact fits.addrs i

theorem load_store_other (block : Block) (ip : Inode) (differs : other ≠ index) :
    load (store block index ip) other = load block other := by
  have same : ∀ offset, offset ≤ 60 → (store block index ip).word (64 * other + offset) =
        block.word (64 * other + offset) := by
    intro offset bound
    refine Block.word_setWords_other _ _ ?_
    rw [words_length]
    omega
  have first := same 0 (by omega)
  rw [Nat.add_zero] at first
  have addrs : (load (store block index ip) other).addrs = (load block other).addrs := by
    funext i
    have bound : (i : Nat) < 13 := i.isLt
    have word := same (12 + 4 * i) (by omega)
    rw [← Nat.add_assoc] at word
    exact word
  simp only [load, mk.injEq]
  exact ⟨by rw [first], by rw [first], by rw [same 4 (by omega)],
    by rw [same 4 (by omega)], same 8 (by omega), addrs⟩

theorem load_store_self (block : Block) (fits : ip.Fits) (bound : index < ipb) :
    load (store block index ip) index = ip := by
  have room : 64 * index + 4 * ip.words.length ≤ bsize := by
    rw [words_length]
    simp only [ipb, bsize] at bound ⊢
    omega
  have word : ∀ position value, ip.words[position]? = some value →
      (store block index ip).word (64 * index + 4 * position) = value :=
    fun position value found =>
      Block.word_setWords block (words_fit fits) room found
  have first := word 0 _ rfl
  have second := word 1 _ rfl
  have third := word 2 _ rfl
  rw [Nat.mul_zero, Nat.add_zero] at first
  have addrs : (load (store block index ip) index).addrs = ip.addrs := by
    funext i
    have found : ip.words[3 + (i : Nat)]? = some (ip.addrs i) := by
      rw [words, List.getElem?_append_right (Nat.le_add_right 3 _)]
      simp only [List.length_cons, List.length_nil, Nat.zero_add,
        Nat.reduceAdd, Nat.add_sub_cancel_left]
      rw [List.getElem?_ofFn, dif_pos i.isLt]
    have value := word (3 + i) _ found
    rw [Nat.mul_add, ← Nat.add_assoc] at value
    exact value
  obtain ⟨type, major, minor, nlink, size, entries⟩ := ip
  simp only [load, mk.injEq]
  refine ⟨?_, ?_, ?_, ?_, third, addrs⟩
  · rw [first]
    apply BitVec.eq_of_toNat_eq
    simp
    omega
  · rw [first]
    apply BitVec.eq_of_toNat_eq
    simp
    omega
  · rw [show 64 * index + 4 = 64 * index + 4 * 1 from rfl, second]
    apply BitVec.eq_of_toNat_eq
    simp
    omega
  · rw [show 64 * index + 4 = 64 * index + 4 * 1 from rfl, second]
    apply BitVec.eq_of_toNat_eq
    simp
    omega

end Inode

/-! Block numbers of a file. -/

abbrev AddrSlot := Fin (ndirect + 1 + nindirect)

def slots (block : Nat → Block) (ip : Inode) (place : AddrSlot) : Nat :=
  if direct : (place : Nat) < ndirect + 1 then
    ip.addrs ⟨place, direct⟩
  else if ip.addrs (Fin.last ndirect) = 0 then
    0
  else
    (block (ip.addrs (Fin.last ndirect))).word (4 * (place - (ndirect + 1)))

def direct (i : Fin (ndirect + 1)) : AddrSlot := Fin.castAdd nindirect i

def indirect (i : Fin nindirect) : AddrSlot := Fin.natAdd (ndirect + 1) i

def indirectBlock : AddrSlot := direct (Fin.last ndirect)

theorem sub_ndirect_lt (bn : Fin maxfile) : (bn : Nat) - ndirect < nindirect := by
  have := bn.isLt
  simp only [maxfile, ndirect, nindirect, bsize] at this ⊢
  omega

def dataSlot (bn : Fin maxfile) : AddrSlot :=
  if small : (bn : Nat) < ndirect then
    direct ⟨bn, Nat.lt_succ_of_lt small⟩
  else
    indirect ⟨bn - ndirect, by
      have bound : (bn : Nat) < 12 + bsize / 4 := bn.isLt
      simp only [ndirect, nindirect] at small ⊢
      omega⟩

/-! Directory entries: a ushort and `DIRSIZ` bytes of name. -/

def direntSize : Nat := 2 + dirsiz

def direntInum (entry : List UInt8) : Nat :=
  (entry[0]?.getD 0).toNat + 2 ^ 8 * (entry[1]?.getD 0).toNat

def direntName (entry : List UInt8) : List UInt8 := entry.drop 2

def cname (name : List UInt8) : List UInt8 :=
  (name.take dirsiz).takeWhile (· ≠ 0)

def namecmp (first second : List UInt8) : Bool :=
  cname first = cname second

def dirent (inum : Nat) (name : List UInt8) : List UInt8 :=
  [.ofNat inum, .ofNat (inum / 2 ^ 8)] ++ (cname name ++ List.replicate dirsiz 0).take dirsiz

/-! The areas of the disk. -/

structure Superblock where
  size : Nat
  nblocks : Nat
  ninodes : Nat
  nlog : Nat
  logstart : Nat
  inodestart : Nat
  bmapstart : Nat

namespace Superblock

variable (sb : Superblock)

def iblock (inum : Nat) : Nat := inum / ipb + sb.inodestart

def bblock (b : Nat) : Nat := b / bpb + sb.bmapstart

/-- The first data block: mkfs makes `nblocks` of them, up to `size`. -/
def dataStart : Nat := sb.size - sb.nblocks

/-- The areas follow one another and the disk is small enough for `int`. -/
structure WellFormed : Prop where
  header : 0 < sb.nlog
  log : sb.logstart + sb.nlog ≤ sb.inodestart
  inodes : ∀ inum < sb.ninodes, sb.iblock inum < sb.bmapstart
  bitmap : ∀ b < sb.size, sb.bblock b < sb.dataStart
  nonempty : 0 < sb.size
  small : sb.size < 2 ^ 31
  root : rootino < sb.ninodes

end Superblock

def dinode (sb : Superblock) (block : Nat → Block) (inum : Nat) : Inode :=
  .load (block (sb.iblock inum)) (inum % ipb)

def used (sb : Superblock) (block : Nat → Block) (b : Nat) : Bool :=
  (block (sb.bblock b)).bit (b % bpb)

end Disk

end Xv6Lottery
