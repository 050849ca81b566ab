import Xv6Lottery.Param

namespace Xv6Lottery

abbrev Block := Vector UInt8 bsize

namespace Block

def byte (block : Block) (offset : Nat) : UInt8 :=
  block[offset]?.getD 0

def setByte (block : Block) (offset : Nat) (value : UInt8) : Block :=
  block.setIfInBounds offset value

theorem byte_setByte_self (block : Block) (bound : offset < bsize) (value : UInt8) :
    (block.setByte offset value).byte offset = value := by
  simp [byte, setByte, bound]

theorem byte_setByte_other (block : Block) (different : offset ≠ other) (value : UInt8) :
    (block.setByte offset value).byte other = block.byte other := by
  simp [byte, setByte, different]

/-- The 32-bit word stored at a byte offset, least significant byte first. -/
def word (block : Block) (offset : Nat) : Nat :=
  (block.byte offset).toNat + 2 ^ 8 * (block.byte (offset + 1)).toNat +
    2 ^ 16 * (block.byte (offset + 2)).toNat + 2 ^ 24 * (block.byte (offset + 3)).toNat

def setWord (block : Block) (offset value : Nat) : Block :=
  (((block.setByte offset (.ofNat value)).setByte (offset + 1)
    (.ofNat (value / 2 ^ 8))).setByte (offset + 2) (.ofNat (value / 2 ^ 16))).setByte (offset + 3)
    (.ofNat (value / 2 ^ 24))

theorem byte_setWord_other (block : Block) (value : Nat)
    (outside : other < offset ∨ offset + 3 < other) :
    (block.setWord offset value).byte other = block.byte other := by
  unfold setWord
  rw [byte_setByte_other _ (by omega), byte_setByte_other _ (by omega),
    byte_setByte_other _ (by omega), byte_setByte_other _ (by omega)]

theorem word_setWord_self (block : Block) (bound : offset + 3 < bsize) (fits : value < 2 ^ 32) :
    (block.setWord offset value).word offset = value := by
  have byte0 : (block.setWord offset value).byte offset = .ofNat value := by
    unfold setWord
    rw [byte_setByte_other _ (by omega), byte_setByte_other _ (by omega),
      byte_setByte_other _ (by omega), byte_setByte_self _ (by omega)]
  have byte1 : (block.setWord offset value).byte (offset + 1) = .ofNat (value / 2 ^ 8) := by
    unfold setWord
    rw [byte_setByte_other _ (by omega), byte_setByte_other _ (by omega),
      byte_setByte_self _ (by omega)]
  have byte2 : (block.setWord offset value).byte (offset + 2) = .ofNat (value / 2 ^ 16) := by
    unfold setWord
    rw [byte_setByte_other _ (by omega), byte_setByte_self _ (by omega)]
  have byte3 : (block.setWord offset value).byte (offset + 3) = .ofNat (value / 2 ^ 24) := by
    unfold setWord
    rw [byte_setByte_self _ bound]
  simp only [word, byte0, byte1, byte2, byte3, UInt8.toNat_ofNat']
  omega

theorem word_setWord_other (block : Block) (value : Nat)
    (outside : other + 3 < offset ∨ offset + 3 < other) :
    (block.setWord offset value).word other = block.word other := by
  simp only [word]
  rw [byte_setWord_other _ _ (by omega), byte_setWord_other _ _ (by omega),
    byte_setWord_other _ _ (by omega), byte_setWord_other _ _ (by omega)]

/-- The word at an offset read as a C `int`. -/
def int (block : Block) (offset : Nat) : Int :=
  Int.bmod (block.word offset) (2 ^ 32)

end Block

/-- `struct logheader`: the block numbers `block[0], …, block[n-1]`.  The
array beyond `n` is never read. -/
abbrev LogHeader := List Nat

namespace LogHeader

/-- Byte offset of `block[i]` in a header block, after `int n`. -/
def slot (position : Nat) : Nat := 4 + 4 * position

def storeFrom (buf : Block) (first : Nat) : LogHeader → Block
  | [] => buf
  | block :: rest => storeFrom (buf.setWord (slot first) block) (first + 1) rest

/-- What `write_head` makes of the header block: `n` and the first `n` entries
are overwritten, the other bytes stay. -/
def store (header : LogHeader) (buf : Block) : Block :=
  storeFrom (buf.setWord 0 header.length) 0 header

def count (buf : Block) : Int := buf.int 0

/-- What `read_head` makes of a header block.  A negative `n` reads nothing. -/
def load (buf : Block) : LogHeader :=
  (List.range (count buf).toNat).map fun position => buf.word (slot position)

theorem word_storeFrom_before (header : LogHeader) (buf : Block)
    (before : offset + 3 < slot first) :
    (storeFrom buf first header).word offset = buf.word offset := by
  induction header generalizing buf first with
  | nil => rfl
  | cons block rest induction =>
    have next : offset + 3 < slot (first + 1) := by
      simp only [slot] at before ⊢
      omega
    rw [storeFrom, induction _ next, Block.word_setWord_other _ _ (.inl before)]

theorem word_storeFrom (header : LogHeader) (buf : Block) (bound : position < header.length)
    (room : first + header.length ≤ logSize) (fits : ∀ block ∈ header, block < 2 ^ 32) :
    (storeFrom buf first header).word (slot (first + position)) = header[position] := by
  induction header generalizing buf first position with
  | nil => simp at bound
  | cons block rest induction =>
    have inBlock : slot first + 3 < bsize := by
      simp only [slot, logSize, maxOpBlocks, bsize, List.length_cons] at room ⊢
      omega
    cases position with
    | zero =>
      simp only [storeFrom, Nat.add_zero, List.getElem_cons_zero]
      rw [word_storeFrom_before rest _ (by simp only [slot]; omega),
        Block.word_setWord_self _ inBlock (fits block (by simp))]
    | succ position =>
      have shifted : first + (position + 1) = first + 1 + position := by
        omega
      rw [storeFrom, shifted, List.getElem_cons_succ]
      apply induction
      · simp only [List.length_cons] at room
        omega
      · intro other member
        exact fits other (by simp [member])

theorem count_store (header : LogHeader) (buf : Block) (room : header.length ≤ logSize) :
    count (header.store buf) = header.length := by
  have small : header.length < 2 ^ 31 := by
    simp only [logSize, maxOpBlocks] at room
    omega
  have inBlock : 0 + 3 < bsize := by simp [bsize]
  have stored : (header.store buf).word 0 = header.length := by
    rw [store, word_storeFrom_before header _ (by simp [slot]),
      Block.word_setWord_self _ inBlock (by omega)]
  unfold count Block.int
  rw [stored]
  apply Int.bmod_eq_of_le
  · omega
  · omega

theorem load_store (header : LogHeader) (buf : Block) (room : header.length ≤ logSize)
    (fits : ∀ block ∈ header, block < 2 ^ 32) : load (header.store buf) = header := by
  apply List.ext_getElem
  · simp [load, count_store header buf room]
  · intro position _ bound
    have entry : (header.store buf).word (slot (0 + position)) = header[position] :=
      word_storeFrom header _ bound (by omega) fits
    simpa [load] using entry

theorem load_eq_nil (empty : count buf = 0) : load buf = [] := by
  simp [load, empty]

end LogHeader

end Xv6Lottery
