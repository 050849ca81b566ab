import Xv6Lottery.Disk.Consistent
import Xv6Lottery.Disk.Footprint

/-! Files are arrays of bytes: what readi() and writei() of a whole kernel do
to them. -/

namespace Xv6Lottery.Disk

open Concurrent Function

variable {Agent : Type} {sb : Superblock} {self : Agent} {ip : Fin ninode} {i : Nat}

/-- The arguments for which writei() returns -1. -/
def Refused (size off n : Nat) : Prop :=
  size < off ∨ 2 ^ 32 ≤ off + n ∨ maxfile * bsize < off + n

theorem refused_iff (offBound : off < 2 ^ 32) (nBound : n < 2 ^ 32) :
    (size < off ∨ (off + n) % 2 ^ 32 < off ∨ maxfile * bsize < off + n) ↔ Refused size off n := by
  unfold Refused
  have wraps : (off + n) % 2 ^ 32 < off ↔ 2 ^ 32 ≤ off + n := by omega
  rw [wraps]

section Splice

variable {volume finish : Volume Agent} {src : Source} {off n tot : Nat}

theorem fileOf_written (inode : i < sb.ninodes) (type : (dinode sb volume.block i).type ≠ 0)
    (type' : (dinode sb finish.block i).type ≠ 0)
    (size : (dinode sb finish.block i).size = max (dinode sb volume.block i).size (off + tot))
    (reached : off ≤ (dinode sb volume.block i).size) (readable : src.Readable n) (most : tot ≤ n)
    (written : Written (dinode sb volume.block i).size off
      (fileByte volume.block (addrOf sb volume.block i)) src finish.block (addrOf sb finish.block i)
      (off + tot)) :
    fileOf sb finish.block i = (fileOf sb volume.block i).take off ++ src.copied 0 tot ++
      (fileOf sb volume.block i).drop (off + tot) := by
  have length := src.copied_length readable ((Nat.zero_add tot).symm ▸ most)
  apply List.ext_getElem?
  intro position
  rw [fileOf_get inode type', size]
  by_cases before : position < off
  · rw [if_pos (by omega), written.bytes position (by omega),
      if_neg (by omega), List.append_assoc,
      List.getElem?_append_left (by
        rw [List.length_take, fileOf_length]
        omega),
      List.getElem?_take_of_lt before, fileOf_get inode type,
      if_pos (by omega)]
  · obtain ⟨index, rfl⟩ := Nat.exists_eq_add_of_le (Nat.le_of_not_lt before)
    have taken : ((fileOf sb volume.block i).take off).length = off := by
      rw [List.length_take, fileOf_length]
      omega
    rw [List.append_assoc, List.getElem?_append_right (by omega), taken,
      Nat.add_sub_cancel_left]
    by_cases new : index < tot
    · rw [if_pos (by omega), written.bytes _ (by omega), if_pos (by omega),
        List.getElem?_append_left (by omega), src.copied_get (by omega),
        Nat.add_sub_cancel_left, Nat.zero_add]
    · rw [List.getElem?_append_right (by omega), length,
        List.getElem?_drop, fileOf_get inode type]
      have place : off + tot + (index - tot) = off + index := by omega
      rw [place]
      by_cases inside : off + index < (dinode sb volume.block i).size
      · rw [if_pos (by omega), if_pos inside, written.bytes _ (by omega),
          if_neg (by omega)]
      · rw [if_neg (by omega), if_neg inside]

end Splice

structure WriteLaw (sb : Superblock) (ip : Fin ninode) (i : Nat)
    (src : Source) (off n : Nat) (block block' : Nat → Block)
    (mem' : Mem Agent) (tot : Nat) : Prop where
  most : tot ≤ n
  full : tot < n → ∀ b, b < sb.size → used sb block' b = true
  file : fileOf sb block' i = (fileOf sb block i).take off ++ src.copied 0 tot ++
      (fileOf sb block i).drop (off + tot)
  others : ∀ j, j ≠ i → j < sb.ninodes → (dinode sb block j).type ≠ 0 →
    fileOf sb block' j = fileOf sb block j
  consistent : Consistent sb block'
  locked : Locked sb ip i block' mem'

theorem writei_law (wf : sb.WellFormed) (consistent : Consistent sb volume.block)
    (locked : Locked sb ip i volume.block volume.mem) (spoilt : volume.spoilt = fun _ => false)
    (readable : src.Readable n) (offBound : off < 2 ^ 32) (nBound : n < 2 ^ 32) :
    Runs self (writei sb ip src off n) volume fun answer finish =>
      (Refused (dinode sb volume.block i).size off n ∧ answer = -1 ∧ finish = volume) ∨
      (¬Refused (dinode sb volume.block i).size off n ∧ ∃ tot : Nat, answer = tot ∧
        WriteLaw sb ip i src off n volume.block finish.block finish.mem tot) := by
  have holds := consistent.holds wf locked spoilt
  refine (writei_spec wf holds off n).mono ?_
  intro answer finish outcome
  split at outcome
  next refused =>
    exact .inl ⟨(refused_iff offBound nBound).mp refused, outcome⟩
  next passed =>
    have accepted : ¬Refused (dinode sb volume.block i).size off n :=
      fun refused => passed ((refused_iff offBound nBound).mpr refused)
    obtain ⟨tot, l', owner', claims', rfl, done⟩ := outcome
    have alone : update (update (update
        (fun _ => none) i (some (liveOf sb volume.block i))) i (some l')) i
          none = fun _ => (none : Option Live) := by
      rw [update_idem, update_idem]
      exact update_eq_self i fun _ => none
    obtain ⟨same, settled, again⟩ :=
      done.holds.consistent wf done.synced alone
    have copy := again.copy.symm.trans done.holds.copy
    have size : (dinode sb finish.block i).size =
        max (dinode sb volume.block i).size (off + tot) := by
      rw [copy, done.copy]
      rfl
    have aside := done.aside
    have written := done.written readable
    rw [same] at aside written
    have reached : off ≤ (dinode sb volume.block i).size := by
      unfold Refused at accepted
      omega
    exact .inr ⟨accepted, tot, rfl, {
      most := done.most
      full := done.full readable
      file := fileOf_written locked.inode locked.type again.type size
        reached readable done.most written
      others := fun j other inode type =>
        aside.fileOf consistent other inode type
      consistent := settled
      locked := again }⟩

section Example

def emptyFile : Inode := { Inode.cleared tFile with nlink := 1 }

/-- The root directory and the file, with no blocks; block 45 has the bits of
the blocks before the data area. -/
def freshDisk (b : Nat) : Block :=
  if b = 32 then
    Inode.store (Inode.store Block.zero 1 { Inode.cleared tDir with nlink := 1 }) 2 emptyFile
  else if b = 45 then
    Block.zero.setBytes 0 (List.replicate 5 255 ++ [63])
  else
    Block.zero

def freshKernel : Kernel (Fin 1) where
  cache := fun _ => none
  disk := freshDisk
  pinned := fun _ => false
  spoilt := fun _ => false
  lh := []
  outstanding := 1
  committing := false
  mem := { openMem with
    itable := fun slot => { openMem.itable slot with
      key := ⟨rootdev, 2⟩
      lock := some 0
      copy := emptyFile } }

theorem mkfsSuper_wellFormed : mkfsSuper.WellFormed where
  header := by decide
  log := by decide
  inodes := by
    intro inum bound
    change inum < 200 at bound
    change inum / 16 + 32 < 45
    omega
  bitmap := by
    intro b bound
    change b < 2000 at bound
    change b / 8192 + 45 < 46
    omega
  nonempty := by decide
  small := by decide
  root := by decide

theorem freshDisk_first (first : i < ipb) : dinode mkfsSuper freshDisk i = Inode.load
      (Inode.store (Inode.store Block.zero 1
        { Inode.cleared tDir with nlink := 1 }) 2 emptyFile) i := by
  unfold dinode Superblock.iblock
  rw [Nat.div_eq_of_lt first, Nat.mod_eq_of_lt first]
  rfl

theorem freshDisk_file : dinode mkfsSuper freshDisk 2 = emptyFile := by
  rw [freshDisk_first (by decide)]
  exact Inode.load_store_self _ (cleared_fits ..) (by decide)

theorem freshDisk_dinode (inode : i < mkfsSuper.ninodes) :
    (dinode mkfsSuper freshDisk i).size = 0 ∧ (dinode mkfsSuper freshDisk i).addrs =
      fun _ => 0 := by
  have zero : ∀ index, (Inode.load Block.zero index).size = 0 ∧
      (Inode.load Block.zero index).addrs = fun _ => 0 := fun index =>
    ⟨Block.word_zero _, funext fun _ => Block.word_zero _⟩
  by_cases first : i < ipb
  · rw [freshDisk_first first]
    by_cases two : i = 2
    · rw [two]
      have loaded : ∀ block, Inode.load (Inode.store block 2 emptyFile) 2 =
          emptyFile := fun _ =>
        Inode.load_store_self _ (cleared_fits ..) (by decide)
      rw [loaded]
      exact ⟨rfl, rfl⟩
    · rw [Inode.load_store_other _ _ two]
      by_cases one : i = 1
      · rw [one, Inode.load_store_self _ (cleared_fits ..) (by decide)]
        exact ⟨rfl, rfl⟩
      · rw [Inode.load_store_other _ _ one]
        exact zero i
  · have rest : freshDisk (mkfsSuper.iblock i) = Block.zero := by
      change i < 200 at inode
      change ¬i < 16 at first
      have later : mkfsSuper.iblock i ≠ 32 := by
        change i / 16 + 32 ≠ 32
        omega
      have earlier : mkfsSuper.iblock i ≠ 45 := by
        change i / 16 + 32 ≠ 45
        omega
      rw [freshDisk, if_neg later, if_neg earlier]
    unfold dinode
    rw [rest]
    exact zero _

theorem freshDisk_addrOf (i : Nat) : addrOf mkfsSuper freshDisk i = fun _ => 0 := by
  unfold addrOf
  split
  next inode =>
    unfold contents
    split
    · rfl
    · exact slots_zero _ (freshDisk_dinode inode).2
  · rfl

theorem freshDisk_used (onDisk : b < mkfsSuper.size) :
    used mkfsSuper freshDisk b = decide (b < 46) := by
  change b < 2000 at onDisk
  have bitmap : mkfsSuper.bblock b = 45 := by
    change b / 8192 + 45 = 45
    omega
  have index : b % bpb = b := by
    change b % 8192 = b
    omega
  unfold used
  rw [bitmap, index]
  change (Block.zero.setBytes 0 (List.replicate 5 255 ++ [63])).bit b = _
  by_cases early : b < 48
  · have all : ∀ b < 48, (Block.zero.setBytes 0
        (List.replicate 5 255 ++ [63])).bit b = decide (b < 46) := by
      decide +kernel
    exact all b early
  · unfold Block.bit
    rw [Block.byte_setBytes_other _ _ (.inr (by
      simp only [List.length_append, List.length_replicate, List.length_singleton]
      omega)), Block.byte_zero]
    have late : ¬b < 46 := by omega
    simp [late]

theorem freshDisk_consistent : Consistent mkfsSuper freshDisk where
  inside := by
    intro i place claimed
    rw [freshDisk_addrOf] at claimed
    exact (claimed rfl).elim
  once := by
    intro i place j place' claimed
    rw [freshDisk_addrOf] at claimed
    exact (claimed rfl).elim
  used := by
    intro b onDisk
    rw [freshDisk_used onDisk, decide_eq_true_iff]
    constructor
    · exact .inl
    · rintro (early | ⟨i, place, same⟩)
      · exact early
      · rw [freshDisk_addrOf] at same
        subst same
        change 0 < 46
        decide
  noHoles := by
    intro i inode _
    rw [(freshDisk_dinode inode).1]
    exact ⟨Nat.zero_le _, fun bn bound => (Nat.not_lt_zero _ bound).elim⟩

theorem freshKernel_consistent : Consistent mkfsSuper freshKernel.view :=
  freshDisk_consistent

theorem freshKernel_locked : Locked mkfsSuper 0 2 freshKernel.view freshKernel.mem where
  inode := by decide
  inum := rfl
  copy := freshDisk_file.symm
  type := by
    change (dinode mkfsSuper freshDisk 2).type ≠ 0
    rw [freshDisk_file]
    decide

theorem sevens_readable (n : Nat) : Source.Readable (fun _ => some 7) n := fun _ _ => rfl

def stops {state value : Type} : Concurrent.Effect state Failure value → Option Failure
  | .stop reason => some reason
  | _ => none

end Example

end Xv6Lottery.Disk
