import Xv6Lottery.Disk.Ownership
import Xv6Lottery.Disk.Volume

/-! The content of a file, and readi() of it. -/

namespace Xv6Lottery.Disk

open Concurrent

def fileByte (block : Nat → Block) (addr : AddrSlot → Nat) (offset : Nat) :
    UInt8 :=
  if small : offset / bsize < maxfile then
    (block (addr (dataSlot ⟨offset / bsize, small⟩))).byte (offset % bsize)
  else
    0

def content (block : Nat → Block) (ip : Inode) : List UInt8 :=
  (List.range ip.size).map (fileByte block (slots block ip))

def fileBytes (block : Nat → Block) (addr : AddrSlot → Nat) (offset count : Nat) : List UInt8 :=
  (List.range count).map fun position =>
    fileByte block addr (offset + position)

section Bytes

variable {block : Nat → Block} {addr : AddrSlot → Nat}

theorem fileBytes_append (offset count more : Nat) :
    fileBytes block addr offset (count + more) =
      fileBytes block addr offset count ++ fileBytes block addr (offset + count) more := by
  simp only [fileBytes, List.range_add, List.map_append, List.map_map,
    Function.comp_def, Nat.add_assoc]

theorem fileBytes_block (small : offset / bsize < maxfile)
    (inside : offset % bsize + count ≤ bsize) :
    fileBytes block addr offset count = (block (addr (dataSlot ⟨offset / bsize, small⟩))).bytes
      (offset % bsize) count := by
  unfold fileBytes Block.bytes
  apply List.map_congr_left
  intro position member
  have bound := List.mem_range.mp member
  have quotient : (offset + position) / bsize = offset / bsize := by
    simp only [bsize] at inside ⊢
    omega
  have rest : (offset + position) % bsize = offset % bsize + position := by
    simp only [bsize] at inside ⊢
    omega
  simp only [fileByte, quotient, rest, dif_pos small]

theorem content_drop_take (off n : Nat) :
    ((content block ip).drop off).take n = fileBytes block (slots block ip) off
      (min n (ip.size - off)) := by
  apply List.ext_getElem
  · simp [content, fileBytes]
  · intro position first second
    simp [content, fileBytes]

end Bytes

variable {Agent : Type} {sb : Superblock} {self : Agent} {volume : Volume Agent} {ip : Fin ninode}

structure Unread (mem : Mem Agent) (ip : Fin ninode) (i : Nat) : Prop where
  ref : ¬(mem.itable ip).ref < 1
  lock : (mem.itable ip).lock = none
  valid : (mem.itable ip).valid = false
  inum : (mem.itable ip).key.inum = i

theorem ilock_unread (unread : Unread volume.mem ip i)
    (type : (dinode sb volume.block i).type ≠ 0) :
    Runs self (ilock sb ip) volume fun _ finish => finish.block = volume.block ∧ finish.logged =
      volume.logged ∧ (finish.mem.itable ip).copy = dinode sb volume.block i := by
  unfold ilock
  refine .bind (Runs.readIp ?_)
  rw [if_neg unread.ref]
  have taken : Volume.sem Unit self (.mem fun self mem =>
      if (mem.itable ip).lock = none then
        .done () { mem with itable := mem.itable.setLock ip (some self) }
      else .wait) volume = .done () { volume with
        mem := { volume.mem with
          itable := volume.mem.itable.setLock ip (some self) } } := by
    simp only [Volume.sem, if_pos unread.lock]
  refine .bind (Prog.Returns.perform taken ?_)
  refine .bind (Runs.readIp ?_)
  have entry : volume.mem.itable.setLock ip (some self) ip =
      { volume.mem.itable ip with lock := some self } :=
    Function.update_self ..
  simp only [entry, unread.valid, unread.inum, Bool.false_eq_true, if_false]
  unfold iload
  refine .bind (Runs.bread rfl ?_)
  refine .bind (Prog.Returns.perform rfl ?_)
  dsimp only
  unfold dinode at type
  rw [if_neg type]
  refine .pure ⟨rfl, rfl, ?_⟩
  simp only [Itable.setCopy, Function.update_self]
  rfl

theorem bmap_mapped (bn : Fin maxfile)
    (mapped : slots volume.block (volume.mem.itable ip).copy (dataSlot bn) ≠ 0)
    {post : Nat → Volume Agent → Prop}
    (holds : post (slots volume.block (volume.mem.itable ip).copy (dataSlot bn)) volume) :
    Runs self (bmap sb ip bn) volume post := by
  unfold bmap
  by_cases small : (bn : Nat) < ndirect
  · have place : dataSlot bn = direct ⟨bn, Nat.lt_succ_of_lt small⟩ :=
      dif_pos small
    rw [place, slots_direct] at mapped holds
    rw [dif_pos small]
    refine .bind (Runs.readIp ?_)
    rw [if_neg mapped]
    exact .pure holds
  · have bound := sub_ndirect_lt bn
    have place : dataSlot bn = indirect ⟨bn - ndirect, bound⟩ :=
      dif_neg small
    rw [place, slots_indirect] at mapped holds
    split at mapped
    · exact (mapped rfl).elim
    next table =>
      rw [if_neg table] at holds
      rw [dif_neg small, if_pos bound]
      refine .bind ?_
      refine .bind (Runs.readIp ?_)
      rw [if_neg table]
      refine .pure ?_
      rw [if_neg table]
      refine .bind (Runs.bread rfl ?_)
      rw [if_neg mapped]
      exact .pure holds

section Readi

variable {dst : Nat → Nat → Bool}

theorem readiLoop_filled (small : size ≤ maxfile * bsize) (filled : ∀ bn : Fin maxfile, bn * bsize <
      size → slots volume.block (volume.mem.itable ip).copy (dataSlot bn) ≠ 0) {read : List UInt8}
    (enough : left ≤ rounds) (within : off + left ≤ size) :
    Runs self (readiLoop sb ip dst rounds off left read) volume fun result finish => finish =
      volume ∧ ((∀ start count, dst start count = true) → result =
        some (read ++ fileBytes volume.block (slots volume.block (volume.mem.itable ip).copy) off
        left)) := by
  induction rounds generalizing off left read with
  | zero =>
    have none : left = 0 := by omega
    subst none
    exact .pure ⟨rfl, fun _ => congrArg some (List.append_nil _).symm⟩
  | succ rounds induction =>
    rw [readiLoop]
    split
    next none =>
      subst none
      exact .pure ⟨rfl, fun _ => congrArg some (List.append_nil _).symm⟩
    next some_ =>
      have range : off / bsize < maxfile := by
        simp only [bsize, maxfile] at small ⊢
        omega
      have mapped := filled ⟨off / bsize, range⟩ (by
        simp only [bsize]
        omega)
      refine .bind (bmap_mapped ⟨off / bsize, range⟩ mapped ?_)
      rw [if_neg mapped]
      refine .bind (Runs.bread rfl ?_)
      split
      next copied =>
        generalize chunk : min left (bsize - off % bsize) = m at copied ⊢
        have inside : off % bsize + m ≤ bsize := by
          simp only [bsize] at chunk ⊢
          omega
        have progress : 0 < m := by
          simp only [bsize] at chunk
          omega
        have most : m ≤ left := by omega
        refine (induction (by omega) (by omega)).mono ?_
        rintro result finish ⟨same, whole⟩
        refine ⟨same, fun writable => ?_⟩
        rw [whole writable, List.append_assoc, ← fileBytes_block range inside, ← fileBytes_append,
          Nat.add_sub_cancel' most]
      next failed =>
        refine .pure ⟨rfl, fun writable => ?_⟩
        exact (failed (writable _ _)).elim

theorem readi_filled (noHoles : NoHoles (volume.mem.itable ip).copy.size
      (slots volume.block (volume.mem.itable ip).copy)) {off n : Nat} :
    Runs self (readi sb ip dst off n) volume fun result finish => finish = volume ∧
      ((∀ start count, dst start count = true) → result =
        some (if (volume.mem.itable ip).copy.size < off ∨ (off + n) % 2 ^ 32 <
        off then [] else ((content volume.block (volume.mem.itable ip).copy).drop off).take n))
      := by
  unfold readi
  refine .bind (Runs.readIp ?_)
  dsimp only
  by_cases outside : (volume.mem.itable ip).copy.size < off ∨ (off + n) % 2 ^ 32 < off
  · simp only [if_pos outside]
    exact .pure ⟨rfl, fun _ => rfl⟩
  · simp only [if_neg outside]
    have count : (if (volume.mem.itable ip).copy.size < off + n then
        (volume.mem.itable ip).copy.size - off else n) =
          min n ((volume.mem.itable ip).copy.size - off) := by
      split <;> omega
    rw [count]
    refine (readiLoop_filled noHoles.small noHoles.filled (Nat.le_refl _) (by omega)).mono ?_
    rintro result finish ⟨same, whole⟩
    refine ⟨same, fun writable => ?_⟩
    rw [whole writable, content_drop_take, List.nil_append]

end Readi

end Xv6Lottery.Disk
