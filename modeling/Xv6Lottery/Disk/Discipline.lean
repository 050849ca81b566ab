import Xv6Lottery.Disk.Coherence

/-! The calls use buffers in such a way that the cache stays coherent. -/

namespace Xv6Lottery.Disk

open Concurrent Transition

variable {Agent : Type}

/-- An operation that is no part of a commit, and that logs what it changes;
`logged` says that it is in a transaction. -/
def Plain (logged : Bool) (result : Type) : Op Agent result → Prop
  | .block _ _ use => ∀ data, (use data).2.2 = false → (use data).2.1 = data
  | .copyin _ _ _ _ _ => logged = true
  | .mem _ | .panic _ | .recycle _ => True
  | _ => False

section Programs

variable (sb : Superblock) {logged : Bool}

theorem fail_plain {value : Type} (reason : Failure) :
    (fail reason : FsProg Agent value).All (Plain logged) :=
  ⟨trivial, nofun⟩

theorem readMem_plain {value : Type} (use : Agent → Mem Agent → value) :
    (readMem use).All (Plain logged) := .perform trivial

theorem writeMem_plain (use : Agent → Mem Agent → Mem Agent) :
    (writeMem use).All (Plain logged) := .perform trivial

theorem recycle_plain (b : Nat) :
    (Prog.perform (.recycle b) : FsProg Agent Unit).All (Plain logged) :=
  .perform trivial

theorem readIp_plain (ip : Fin ninode) :
    (readIp ip : FsProg Agent _).All (Plain logged) := readMem_plain _

theorem writeIp_plain (ip : Fin ninode) (change : Inode → Inode) :
    (writeIp ip change : FsProg Agent _).All (Plain logged) :=
  writeMem_plain _

theorem look_plain {result : Type} (site : Site) (b : Nat) (use : Block → result) :
    (Prog.perform (.block site b fun data => (use data, data, false)) : FsProg Agent result).All
      (Plain logged) :=
  .perform fun _ _ => rfl

theorem log_plain {result : Type} (site : Site) (b : Nat) (use : Block → result × Block) :
    (Prog.perform (.block site b fun data => ((use data).1, (use data).2, true)) : FsProg Agent
        result).All (Plain logged) :=
  .perform fun _ same => nomatch same

theorem bzero_plain (b : Nat) : (bzero b : FsProg Agent _).All (Plain logged) :=
  log_plain .bzero b fun _ => ((), Block.zero)

theorem ballocFrom_plain (rounds b : Nat) :
    (ballocFrom sb rounds b : FsProg Agent _).All (Plain logged) := by
  induction rounds generalizing b with
  | zero => exact .pure _
  | succ rounds induction =>
    unfold ballocFrom
    split
    · refine .bind (.perform fun data unlogged => ?_) fun found => ?_
      · cases scanned : ballocScan sb b data with
        | none => simp only [scanned]
        | some bi => simp [scanned] at unlogged
      · cases found with
        | none => exact induction _
        | some bi => exact .bind (bzero_plain _) fun _ => .pure _
    · exact .pure _

theorem balloc_plain : (balloc sb : FsProg Agent _).All (Plain logged) :=
  ballocFrom_plain sb _ _

theorem bfree_plain (b : Nat) : (bfree sb b : FsProg Agent _).All (Plain logged) := by
  refine .bind (.perform fun data unlogged => ?_) fun taken => ?_
  · by_cases taken : data.bit (b % bpb)
    · simp [taken] at unlogged
    · simp [taken]
  · split
    · exact .pure _
    · exact fail_plain _

theorem iget_plain (inum : Nat) :
    (iget inum : FsProg Agent _).All (Plain logged) := .perform trivial

theorem idup_plain (ip : Fin ninode) :
    (idup ip : FsProg Agent _).All (Plain logged) := writeMem_plain _

theorem iupdate_plain (ip : Fin ninode) : (iupdate sb ip : FsProg Agent _).All (Plain logged) :=
  .bind (readIp_plain ip) fun entry => log_plain .iupdate _
    fun data => ((), Inode.store data (entry.key.inum % ipb) entry.copy)

theorem iallocFrom_plain (type : BitVec 16) (rounds inum : Nat) :
    (iallocFrom sb type rounds inum : FsProg Agent _).All (Plain logged) := by
  induction rounds generalizing inum with
  | zero => exact .pure _
  | succ rounds induction =>
    refine .bind (.perform fun data unlogged => ?_) fun found => ?_
    · by_cases free : (Inode.load data (inum % ipb)).type = 0
      · simp only [free, if_true] at unlogged
        cases unlogged
      · simp only [free, if_false]
    · split
      · exact .bind (iget_plain _) fun _ => .pure _
      · exact induction _

theorem ialloc_plain (type : BitVec 16) : (ialloc sb type : FsProg Agent _).All (Plain logged) :=
  iallocFrom_plain sb type _ _

theorem acquiresleep_plain (ip : Fin ninode) :
    (acquiresleep ip : FsProg Agent _).All (Plain logged) := .perform trivial

theorem ilock_plain (ip : Fin ninode) : (ilock sb ip : FsProg Agent _).All (Plain logged) := by
  refine .bind (readIp_plain ip) fun before => ?_
  split
  · exact fail_plain _
  refine .bind (acquiresleep_plain ip) fun _ =>
    .bind (readIp_plain ip) fun entry => ?_
  split
  · exact .pure _
  refine .bind (look_plain .ilock _ _) fun dinode =>
    .bind (writeMem_plain _) fun _ => ?_
  split
  · exact fail_plain _
  · exact .pure _

theorem bmapDirect_plain (ip : Fin ninode) (i : Fin (ndirect + 1)) :
    (bmapDirect sb ip i : FsProg Agent _).All (Plain logged) := by
  refine .bind (readIp_plain ip) fun entry => ?_
  split
  · refine .bind (balloc_plain sb) fun addr => ?_
    split
    · exact .pure _
    · exact .bind (writeIp_plain ip _) fun _ => .pure _
  · exact .pure _

theorem bmapIndirect_plain (i table : Nat) :
    (bmapIndirect sb i table : FsProg Agent _).All (Plain logged) := by
  refine .bind (look_plain .bmap table _) fun found => ?_
  split
  · refine .bind (balloc_plain sb) fun addr => ?_
    split
    · exact .pure _
    · exact .bind (log_plain .bmap table fun data =>
        ((), data.setWord (4 * i) addr)) fun _ => .pure _
  · exact .pure _

theorem bmap_plain (ip : Fin ninode) (bn : Nat) :
    (bmap sb ip bn : FsProg Agent _).All (Plain logged) := by
  unfold bmap
  split
  · exact bmapDirect_plain sb ip _
  split
  · refine .bind (bmapDirect_plain sb ip _) fun table => ?_
    split
    · exact .pure _
    · exact bmapIndirect_plain sb _ table
  · exact fail_plain _

theorem itruncDirect_plain (ip : Fin ninode) (places : List _) :
    (itruncDirect sb ip places : FsProg Agent _).All (Plain logged) := by
  induction places with
  | nil => exact .pure _
  | cons i rest induction =>
    refine .bind (readIp_plain ip) fun entry => ?_
    split
    · exact .bind (bfree_plain sb _) fun _ =>
        .bind (writeIp_plain ip _) fun _ => induction
    · exact induction

theorem itruncIndirect_plain (words : List Nat) :
    (itruncIndirect sb words : FsProg Agent _).All (Plain logged) := by
  induction words with
  | nil => exact .pure _
  | cons addr rest induction =>
    unfold itruncIndirect
    split
    · exact .bind (bfree_plain sb _) fun _ => induction
    · exact induction

section

variable (ip : Fin ninode)

include ip

theorem itrunc_plain : (itrunc sb ip : FsProg Agent _).All (Plain logged) := by
  refine .bind (itruncDirect_plain sb ip _) fun _ =>
    .bind (readIp_plain ip) fun entry => .bind ?_ fun _ =>
      .bind (writeIp_plain ip _) fun _ => iupdate_plain sb ip
  unfold itruncTable
  split
  · exact .bind (look_plain .itrunc _ _) fun words =>
      .bind (itruncIndirect_plain sb words) fun _ =>
        .bind (bfree_plain sb _) fun _ => writeIp_plain ip _
  · exact .pure _

theorem iput_plain : (iput sb ip : FsProg Agent _).All (Plain logged) := by
  refine .bind (.perform trivial) fun last => ?_
  split
  · exact .bind (itrunc_plain sb ip) fun _ =>
      .bind (writeIp_plain ip _) fun _ =>
        .bind (iupdate_plain sb ip) fun _ =>
          .bind (writeMem_plain _) fun _ =>
            .bind (writeMem_plain _) fun _ => writeMem_plain _
  · exact .pure _

theorem readiLoop_plain (dst : Nat → Nat → Bool) (rounds off left : Nat)
    (read : List UInt8) :
    (readiLoop sb ip dst rounds off left read : FsProg Agent _).All (Plain logged) := by
  induction rounds generalizing off left read with
  | zero => exact .pure _
  | succ rounds induction =>
    unfold readiLoop
    split
    · exact .pure _
    refine .bind (bmap_plain sb ip _) fun addr => ?_
    split
    · exact .pure _
    refine .bind (look_plain .readi addr _) fun bytes => ?_
    split
    · exact induction _ _ _
    · exact .pure _

theorem readi_plain (dst : Nat → Nat → Bool) (off n : Nat) :
    (readi sb ip dst off n : FsProg Agent _).All (Plain logged) := by
  refine .bind (readIp_plain ip) fun entry => ?_
  dsimp only
  split
  · exact .pure _
  · exact readiLoop_plain sb ip dst _ _ _ _

theorem writeiLoop_plain (src : Source) (rounds off left tot : Nat) :
    (writeiLoop sb ip src rounds off left tot : FsProg Agent _).All (Plain true) := by
  induction rounds generalizing off left tot with
  | zero => exact .pure _
  | succ rounds induction =>
    unfold writeiLoop
    split
    · exact .pure _
    refine .bind (bmap_plain sb ip _) fun addr => ?_
    split
    · exact .pure _
    refine .bind (.perform rfl) fun copied => ?_
    split
    · exact induction _ _ _
    · exact .pure _

theorem writei_plain (src : Source) (off n : Nat) :
    (writei sb ip src off n : FsProg Agent _).All (Plain true) := by
  refine .bind (readIp_plain ip) fun entry => ?_
  split
  · exact .pure _
  split
  · exact .pure _
  exact .bind (writeiLoop_plain sb ip src _ _ _ _) fun (last, tot) =>
    .bind (writeIp_plain ip _) fun _ =>
      .bind (iupdate_plain sb ip) fun _ => .pure _

end

section

variable (dp : Fin ninode)

include dp

theorem readDirent_plain (off : Nat) (reason : Failure) :
    (readDirent sb dp off reason : FsProg Agent _).All (Plain logged) := by
  refine .bind (readi_plain sb dp _ _ _) fun read => ?_
  cases read with
  | none => exact fail_plain _
  | some entry =>
    dsimp only
    split
    · exact .pure _
    · exact fail_plain _

theorem dirlookupFrom_plain (name : List UInt8) (rounds off : Nat) :
    (dirlookupFrom sb dp name rounds off : FsProg Agent _).All (Plain logged) := by
  induction rounds generalizing off with
  | zero => exact .pure _
  | succ rounds induction =>
    refine .bind (readIp_plain dp) fun dir => ?_
    split
    · refine .bind (readDirent_plain sb dp _ _) fun entry => ?_
      split
      · exact .pure _
      · exact induction _
    · exact .pure _

theorem dirlookup_plain (name : List UInt8) :
    (dirlookup sb dp name : FsProg Agent _).All (Plain logged) := by
  refine .bind (readIp_plain dp) fun dir => ?_
  split
  · exact fail_plain _
  refine .bind (dirlookupFrom_plain sb dp name _ _) fun found => ?_
  cases found with
  | none => exact .pure _
  | some entry => exact .bind (iget_plain _) fun _ => .pure _

theorem dirlinkFrom_plain (rounds off : Nat) :
    (dirlinkFrom sb dp rounds off : FsProg Agent _).All (Plain logged) := by
  induction rounds generalizing off with
  | zero => exact .pure _
  | succ rounds induction =>
    refine .bind (readIp_plain dp) fun dir => ?_
    split
    · refine .bind (readDirent_plain sb dp _ _) fun entry => ?_
      split
      · exact .pure _
      · exact induction _
    · exact .pure _

theorem dirlink_plain (name : List UInt8) (inum : Nat) :
    (dirlink sb dp name inum : FsProg Agent _).All (Plain true) := by
  refine .bind (dirlookup_plain sb dp name) fun found => ?_
  cases found with
  | none =>
    exact .bind (readIp_plain dp) fun dir =>
      .bind (dirlinkFrom_plain sb dp _ _) fun off =>
        .bind (writei_plain sb dp _ _ _) fun _ => .pure _
  | some entry => exact .bind (iput_plain sb _) fun _ => .pure _

end

theorem filedrop_plain (f : Fin nfile) :
    (filedrop f : FsProg Agent _).All (Plain logged) := .perform trivial

theorem filealloc_plain : (filealloc : FsProg Agent _).All (Plain logged) := .perform trivial

theorem setNlink_plain (ip : Fin ninode) (change : BitVec 16 → BitVec 16) :
    (setNlink sb ip change : FsProg Agent _).All (Plain logged) :=
  .bind (writeIp_plain ip _) fun _ => iupdate_plain sb ip

theorem isdirempty_plain (dp : Fin ninode) :
    (isdirempty sb dp : FsProg Agent _).All (Plain logged) := by
  refine .bind (readIp_plain dp) fun dir => ?_
  generalize dir.copy.size / direntSize + 1 = rounds
  generalize 2 * direntSize = off
  induction rounds generalizing off with
  | zero => exact .pure _
  | succ rounds induction =>
    refine .bind (readIp_plain dp) fun dir => ?_
    split
    · refine .bind (readDirent_plain sb dp _ _) fun entry => ?_
      split
      · exact .pure _
      · exact induction _
    · exact .pure _

theorem unlinkable_plain (ip : Fin ninode) :
    (unlinkable sb ip : FsProg Agent _).All (Plain logged) := by
  refine .bind (readIp_plain ip) fun entry => ?_
  split
  · exact fail_plain _
  split
  · exact isdirempty_plain sb ip
  · exact .pure _

theorem createDots_plain (dp ip : Fin ninode) :
    (createDots sb dp ip : FsProg Agent _).All (Plain true) := by
  refine .bind (readIp_plain ip) fun child =>
    .bind (dirlink_plain sb ip _ _) fun linked => ?_
  split
  · exact .bind (readIp_plain dp) fun parent => dirlink_plain sb ip _ _
  · exact .pure _

theorem inodeOp_plain (ip : Fin ninode) (op : InodeOp) :
    (op.run sb ip : FsProg Agent _).All (Plain true) := by
  cases op with
  | bmap bn =>
    exact .bind (bmap_plain sb ip bn) fun _ => iupdate_plain sb ip
  | writei src off n =>
    refine .bind (readIp_plain ip) fun entry => ?_
    split
    · exact .pure _
    · exact .bind (writei_plain sb ip src off n) fun _ => .pure _
  | itrunc => exact itrunc_plain sb ip
  | nlink value => exact setNlink_plain sb ip fun _ => value

theorem inodeOps_plain (ip : Fin ninode) (ops : List InodeOp) :
    (InodeOp.runAll sb ip ops : FsProg Agent _).All (Plain true) := by
  induction ops with
  | nil => exact .pure _
  | cons op rest induction =>
    exact .bind (inodeOp_plain sb ip op) fun _ => induction

variable [DecidableEq Agent]

theorem fdalloc_plain (f : Fin nfile) : (fdalloc f : FsProg Agent _).All (Plain logged) := by
  refine .bind (readMem_plain _) fun free => ?_
  cases free with
  | none => exact .pure _
  | some fd => exact .bind (writeMem_plain _) fun _ => .pure _

theorem iunlock_plain (ip : Fin ninode) :
    (iunlock ip : FsProg Agent _).All (Plain logged) := .perform trivial

theorem iunlockput_plain (ip : Fin ninode) :
    (iunlockput sb ip : FsProg Agent _).All (Plain logged) :=
  .bind (iunlock_plain ip) fun _ => iput_plain sb ip

theorem namexLoop_plain (nameiparent : Bool) (rounds : Nat) (ip : Fin ninode)
    (path name : List UInt8) :
    (namexLoop sb nameiparent rounds ip path name : FsProg Agent _).All (Plain logged) := by
  induction rounds generalizing ip path name with
  | zero => exact .pure _
  | succ rounds induction =>
    unfold namexLoop
    split
    · split
      · exact .bind (iput_plain sb ip) fun _ => .pure _
      · exact .pure _
    refine .bind (ilock_plain sb ip) fun _ =>
      .bind (readIp_plain ip) fun entry => ?_
    split
    · exact .bind (iunlockput_plain sb ip) fun _ => .pure _
    split
    · exact .bind (iunlock_plain ip) fun _ => .pure _
    refine .bind (dirlookup_plain sb ip _) fun found => ?_
    cases found with
    | none => exact .bind (iunlockput_plain sb ip) fun _ => .pure _
    | some next =>
      exact .bind (iunlockput_plain sb ip) fun _ => induction _ _ _

theorem namex_plain (path : List UInt8) (nameiparent : Bool) :
    (namex sb path nameiparent : FsProg Agent _).All (Plain logged) := by
  refine .bind ?_ fun ip => namexLoop_plain sb nameiparent _ ip path []
  unfold namexStart
  split
  · exact iget_plain _
  · exact .bind (readMem_plain _) fun cwd =>
      .bind (idup_plain cwd) fun _ => .pure _

theorem namei_plain (path : List UInt8) : (namei sb path : FsProg Agent _).All (Plain logged) :=
  .bind (namex_plain sb path false) fun _ => .pure _

theorem nameiparent_plain (path : List UInt8) :
    (nameiparent sb path : FsProg Agent _).All (Plain logged) :=
  namex_plain sb path true

theorem filereadInode_plain (f : Fin nfile) (ip : Fin ninode) (dst : Nat → Nat → Bool) (n : Int) :
    (filereadInode sb f ip dst n : FsProg Agent _).All (Plain logged) := by
  refine .bind (ilock_plain sb ip) fun _ =>
    .bind (readMem_plain _) fun file =>
      .bind (readi_plain sb ip dst _ _) fun read => ?_
  cases read with
  | none => exact .bind (iunlock_plain ip) fun _ => .pure _
  | some bytes =>
    exact .bind (writeMem_plain _) fun _ =>
      .bind (iunlock_plain ip) fun _ => .pure _

theorem linkAt_plain (new : Path) (ip : Fin ninode) :
    (linkAt sb new ip : FsProg Agent _).All (Plain true) := by
  refine .bind (nameiparent_plain sb new) fun found => ?_
  cases found with
  | none => exact .pure _
  | some parent =>
    exact .bind (ilock_plain sb _) fun _ =>
      .bind (readIp_plain ip) fun entry =>
        .bind (dirlink_plain sb _ _ _) fun linked =>
          .bind (iunlockput_plain sb _) fun _ => .pure _

theorem createFail_plain (dp ip : Fin ninode) :
    (createFail sb dp ip : FsProg Agent _).All (Plain logged) :=
  .bind (setNlink_plain sb ip _) fun _ =>
    .bind (iunlockput_plain sb ip) fun _ =>
      .bind (iunlockput_plain sb dp) fun _ => .pure _

theorem createLink_plain (dp ip : Fin ninode) (name : List UInt8) (type : BitVec 16) :
    (createLink sb dp ip name type : FsProg Agent _).All (Plain true) := by
  refine .bind (readIp_plain ip) fun child =>
    .bind (dirlink_plain sb dp _ _) fun linked => ?_
  split
  · split
    · exact .bind (setNlink_plain sb dp _) fun _ =>
        .bind (iunlockput_plain sb dp) fun _ => .pure _
    · exact .bind (iunlockput_plain sb dp) fun _ => .pure _
  · exact createFail_plain sb dp ip

theorem createInode_plain (dp ip : Fin ninode) (name : List UInt8) (type major minor : BitVec 16) :
    (createInode sb dp ip name type major minor : FsProg Agent _).All (Plain true) := by
  refine .bind (ilock_plain sb ip) fun _ =>
    .bind (writeIp_plain ip _) fun _ =>
      .bind (iupdate_plain sb ip) fun _ => ?_
  split
  · refine .bind (createDots_plain sb dp ip) fun made => ?_
    split
    · exact createLink_plain sb dp ip name type
    · exact createFail_plain sb dp ip
  · exact createLink_plain sb dp ip name type

theorem createOld_plain (dp ip : Fin ninode) (type : BitVec 16) :
    (createOld sb dp ip type : FsProg Agent _).All (Plain logged) := by
  refine .bind (iunlockput_plain sb dp) fun _ =>
    .bind (ilock_plain sb ip) fun _ =>
      .bind (readIp_plain ip) fun entry => ?_
  split
  · exact .pure _
  · exact .bind (iunlockput_plain sb ip) fun _ => .pure _

theorem create_plain (path : Path) (type major minor : BitVec 16) :
    (create sb path type major minor : FsProg Agent _).All (Plain true) := by
  refine .bind (nameiparent_plain sb path) fun found => ?_
  cases found with
  | none => exact .pure _
  | some parent =>
    refine .bind (ilock_plain sb _) fun _ =>
      .bind (dirlookup_plain sb _ _) fun old => ?_
    cases old with
    | some entry => exact createOld_plain sb _ _ type
    | none =>
      refine .bind (ialloc_plain sb type) fun made => ?_
      cases made with
      | none => exact .bind (iunlockput_plain sb _) fun _ => .pure _
      | some ip => exact createInode_plain sb _ ip _ type major minor

theorem openInode_plain (path : Path) (omode : Nat) :
    (openInode sb path omode : FsProg Agent _).All (Plain true) := by
  unfold openInode
  split
  · exact create_plain sb path _ _ _
  refine .bind (namei_plain sb path) fun found => ?_
  cases found with
  | none => exact .pure _
  | some ip =>
    refine .bind (ilock_plain sb ip) fun _ =>
      .bind (readIp_plain ip) fun entry => ?_
    split
    · exact .bind (iunlockput_plain sb ip) fun _ => .pure _
    · exact .pure _

end Programs

end Xv6Lottery.Disk
