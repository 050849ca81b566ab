import Xv6Lottery.Disk.Format
import Xv6Lottery.Inode.Table
import Xv6Lottery.Lib.Concurrent

/-! The functions of fs.c as programs. An operation on a block is all that a
process does between bread() and brelse(); an operation on the memory is all
that it does with a spinlock or, under a sleep lock, between two of these. -/

namespace Xv6Lottery.Disk

open Concurrent Function

/-- What a user or kernel address holds from an offset on; none where it is
not mapped. -/
abbrev Source := Nat → Option UInt8

def Source.copied (src : Source) : Nat → Nat → List UInt8
  | _, 0 => []
  | start, count + 1 =>
    match src start with
    | none => []
    | some byte => byte :: copied src (start + 1) count

def Source.kernel (bytes : List UInt8) : Source := fun offset => bytes[offset]?

inductive FileKind where
  | none
  | inode
  | device
  deriving DecidableEq

/-- A `struct file`; pipes are left out. -/
structure OpenFile where
  ref : Nat
  kind : FileKind
  readable : Bool
  writable : Bool
  ip : Fin ninode
  off : Nat
  major : BitVec 16
  deriving DecidableEq

/-- The tables of the kernel, and the part of each process that names
files. -/
structure Mem (Agent : Type) where
  itable : Itable Agent Inode
  ftable : Fin nfile → OpenFile
  ofile : Agent → Fin nofile → Option (Fin nfile)
  cwd : Agent → Fin ninode

inductive Failure where
  | freeingFreeBlock
  | bmapOutOfRange
  | igetNoInodes
  | ilock
  | ilockNoType
  | iunlock
  /-- sched() with a spinlock other than the process's own. -/
  | schedLocks
  | dirlookupNotDir
  | dirlookupRead
  | dirlinkRead
  | isdirempty
  | unlinkNlink
  | unlinkWritei
  | fileclose
  | fileread
  | filewrite
  | logTooBig
  | logOutside
  | logCommitting
  deriving DecidableEq

/-- The functions that use the data of a buffer. -/
inductive Site where
  | balloc
  | bzero
  | bfree
  | bmap
  | itrunc
  | readi
  | ilock
  | iupdate
  | ialloc
  deriving DecidableEq

inductive Op (Agent : Type) : Type → Type 1 where
  /-- bread() of a block, a use of its data with log_write() if it says so,
  and brelse(). -/
  | block (site : Site) (b : Nat) (use : Block → result × Block × Bool) : Op Agent result
  /-- The same in writei(): either_copyin(), and log_write() if it has not
  failed. -/
  | copyin (b offset : Nat) (src : Source) (start count : Nat) : Op Agent Bool
  | mem (use : Agent → Mem Agent → Concurrent.Effect (Mem Agent) Failure result) : Op Agent result
  | beginOp : Op Agent Unit
  /-- The first half of end_op(): is there a commit to do? -/
  | endOp : Op Agent Bool
  | logLength : Op Agent Nat
  /-- A round of write_log(), write_head(), a round of install_trans(). -/
  | writeLog (tail : Nat) : Op Agent Unit
  | writeHead : Op Agent Unit
  | install (tail : Nat) : Op Agent Unit
  | clearLog : Op Agent Unit
  /-- The second half of end_op(). -/
  | finishOp : Op Agent Unit
  /-- bget() takes the buffer of a block for another one. -/
  | recycle (b : Nat) : Op Agent Unit
  | panic (reason : Failure) : Op Agent Empty

abbrev FsProg (Agent : Type) := Prog (Op Agent)

section Basic

variable {Agent : Type}

def fail {value : Type} (reason : Failure) : FsProg Agent value :=
  .op (.panic reason) nofun

def readMem {value : Type} (use : Agent → Mem Agent → value) : FsProg Agent value :=
  .perform (.mem fun self mem => .done (use self mem) mem)

def writeMem (use : Agent → Mem Agent → Mem Agent) : FsProg Agent Unit :=
  .perform (.mem fun self mem => .done () (use self mem))

def readIp (ip : Fin ninode) : FsProg Agent (TableEntry Agent Inode) :=
  readMem fun _ mem => mem.itable ip

def writeIp (ip : Fin ninode) (change : Inode → Inode) : FsProg Agent Unit :=
  writeMem fun _ mem => { mem with
    itable := mem.itable.setCopy ip (mem.itable ip).valid (change (mem.itable ip).copy) }

/-! log.c. -/

def beginOp : FsProg Agent Unit := .perform .beginOp

def writeLogFrom (count : Nat) : Nat → FsProg Agent Unit
  | 0 => pure ()
  | rounds + 1 => do
      .perform (.writeLog (count - (rounds + 1)))
      writeLogFrom count rounds

def installFrom (count : Nat) : Nat → FsProg Agent Unit
  | 0 => pure ()
  | rounds + 1 => do
      .perform (.install (count - (rounds + 1)))
      installFrom count rounds

def commit : FsProg Agent Unit := do
  let count ← .perform .logLength
  if 0 < count then
    writeLogFrom count count
    .perform .writeHead
    installFrom count count
    .perform .clearLog
    .perform .writeHead
  else
    pure ()

def endOp : FsProg Agent Unit := do
  if ← .perform .endOp then
    commit
    .perform .finishOp
  else
    pure ()

end Basic

section Blocks

variable (sb : Superblock) {Agent : Type}

/-! Blocks. -/

def bzero (b : Nat) : FsProg Agent Unit :=
  .perform (.block .bzero b fun _ => ((), Block.zero, true))

/-- The inner loop of balloc(), over the bits of one block. -/
def ballocScan (b : Nat) (data : Block) : Option Nat :=
  (List.range (min bpb (sb.size - b))).find? fun bi => !data.bit bi

def ballocFrom : Nat → Nat → FsProg Agent Nat
  | 0, _ => pure 0
  | rounds + 1, b =>
    if b < sb.size then do
      let found ← .perform (.block .balloc (sb.bblock b) fun data =>
        match ballocScan sb b data with
        | some bi => (some bi, data.setBit bi, true)
        | none => (none, data, false))
      match found with
      | some bi =>
        bzero (b + bi)
        pure (b + bi)
      | none => ballocFrom rounds (b + bpb)
    else
      pure 0

def balloc : FsProg Agent Nat := ballocFrom sb (sb.size / bpb + 1) 0

def bfree (b : Nat) : FsProg Agent Unit := do
  let taken ← .perform (.block .bfree (sb.bblock b) fun data =>
    if data.bit (b % bpb) then
      (true, data.clearBit (b % bpb), true)
    else
      (false, data, false))
  if taken then pure () else fail .freeingFreeBlock

/-! Inodes. -/

def iget (inum : Nat) : FsProg Agent (Fin ninode) :=
  .perform (.mem fun _ mem =>
    match mem.itable.iget ⟨rootdev, inum⟩ with
    | some (itable, ip) => .done ip { mem with itable := itable }
    | none => .stop .igetNoInodes)

def idup (ip : Fin ninode) : FsProg Agent Unit :=
  writeMem fun _ mem => { mem with itable := mem.itable.addRef ip }

def iupdate (ip : Fin ninode) : FsProg Agent Unit := do
  let entry ← readIp ip
  .perform (.block .iupdate (sb.iblock entry.key.inum) fun data =>
    ((), Inode.store data (entry.key.inum % ipb) entry.copy, true))

def iallocFrom (type : BitVec 16) : Nat → Nat → FsProg Agent (Option (Fin ninode))
  | 0, _ => pure none
  | rounds + 1, inum => do
      let found ← .perform (.block .ialloc (sb.iblock inum) fun data =>
        if (Inode.load data (inum % ipb)).type = 0 then
          (true, Inode.store data (inum % ipb) (.cleared type), true)
        else
          (false, data, false))
      if found then
        let ip ← iget inum
        pure (some ip)
      else
        iallocFrom type rounds (inum + 1)

def ialloc (type : BitVec 16) : FsProg Agent (Option (Fin ninode)) :=
  iallocFrom sb type (sb.ninodes - 1) 1

def acquiresleep (ip : Fin ninode) : FsProg Agent Unit :=
  .perform (.mem fun self mem =>
    if (mem.itable ip).lock = none then
      .done () { mem with itable := mem.itable.setLock ip (some self) }
    else
      .wait)

/-- ilock() from acquiresleep() on, if the entry is not valid. -/
def iload (ip : Fin ninode) (inum : Nat) : FsProg Agent Unit := do
  let dinode ← .perform (.block .ilock (sb.iblock inum) fun data =>
    (Inode.load data (inum % ipb), data, false))
  writeMem fun _ mem => { mem with
    itable := mem.itable.setCopy ip true dinode }
  if dinode.type = 0 then fail .ilockNoType else pure ()

def ilock (ip : Fin ninode) : FsProg Agent Unit := do
  let before ← readIp ip
  if before.ref < 1 then
    fail .ilock
  else
    acquiresleep ip
    let entry ← readIp ip
    if entry.valid then pure () else iload sb ip entry.key.inum

def iunlock [DecidableEq Agent] (ip : Fin ninode) : FsProg Agent Unit :=
  .perform (.mem fun self mem =>
    if (mem.itable ip).lock ≠ some self ∨ (mem.itable ip).ref < 1 then
      .stop .iunlock
    else
      .done () { mem with itable := mem.itable.setLock ip none })

/-! Inode content. -/

/-- bmap() for a place in `ip->addrs`. -/
def bmapDirect (ip : Fin ninode) (i : Fin (ndirect + 1)) : FsProg Agent Nat := do
  let entry ← readIp ip
  if entry.copy.addrs i = 0 then
    let addr ← balloc sb
    if addr = 0 then
      pure 0
    else
      writeIp ip fun copy =>
        { copy with addrs := update copy.addrs i addr }
      pure addr
  else
    pure (entry.copy.addrs i)

/-- bmap() for a word of the indirect block. -/
def bmapIndirect (i : Nat) (table : Nat) : FsProg Agent Nat := do
  let found ← .perform (.block .bmap table fun data =>
    (data.word (4 * i), data, false))
  if found = 0 then
    let addr ← balloc sb
    if addr = 0 then
      pure 0
    else
      .perform (.block .bmap table fun data =>
        ((), data.setWord (4 * i) addr, true))
      pure addr
  else
    pure found

def bmap (ip : Fin ninode) (bn : Nat) : FsProg Agent Nat :=
  if small : bn < ndirect then
    bmapDirect sb ip ⟨bn, Nat.lt_succ_of_lt small⟩
  else if bn - ndirect < nindirect then do
    let table ← bmapDirect sb ip (Fin.last ndirect)
    if table = 0 then
      pure 0
    else
      bmapIndirect sb (bn - ndirect) table
  else
    fail .bmapOutOfRange

/-- The first loop of itrunc(). -/
def itruncDirect (ip : Fin ninode) : List (Fin (ndirect + 1)) → FsProg Agent Unit
  | [] => pure ()
  | i :: rest => do
      let entry ← readIp ip
      if entry.copy.addrs i ≠ 0 then
        bfree sb (entry.copy.addrs i)
        writeIp ip fun copy =>
          { copy with addrs := update copy.addrs i 0 }
        itruncDirect ip rest
      else
        itruncDirect ip rest

/-- The second loop of itrunc(). -/
def itruncIndirect : List Nat → FsProg Agent Unit
  | [] => pure ()
  | addr :: rest => do
      if addr ≠ 0 then
        bfree sb addr
        itruncIndirect rest
      else
        itruncIndirect rest

def itruncTable (ip : Fin ninode) (table : Nat) : FsProg Agent Unit :=
  if table ≠ 0 then do
    let words ← .perform (.block .itrunc table fun data =>
      ((List.range nindirect).map fun i => data.word (4 * i), data, false))
    itruncIndirect sb words
    bfree sb table
    writeIp ip fun copy => { copy with
      addrs := update copy.addrs (Fin.last ndirect) 0 }
  else
    pure ()

def itrunc (ip : Fin ninode) : FsProg Agent Unit := do
  itruncDirect sb ip ((List.finRange ndirect).map Fin.castSucc)
  let entry ← readIp ip
  itruncTable sb ip (entry.copy.addrs (Fin.last ndirect))
  writeIp ip fun copy => { copy with size := 0 }
  iupdate sb ip

/-- The part of iput() between its two critical sections. -/
def ifree (ip : Fin ninode) : FsProg Agent Unit := do
  itrunc sb ip
  writeIp ip fun copy => { copy with type := 0 }
  iupdate sb ip
  writeMem fun _ mem => { mem with
    itable := mem.itable.setCopy ip false (mem.itable ip).copy }
  writeMem fun _ mem => { mem with itable := mem.itable.setLock ip none }
  writeMem fun _ mem => { mem with itable := mem.itable.dropRef ip }

def iput (ip : Fin ninode) : FsProg Agent Unit := do
  let last ← .perform (.mem fun self mem =>
    let entry := mem.itable ip
    if entry.ref = 1 ∧ entry.valid = true ∧ entry.copy.nlink = 0 then
      if entry.lock = none then
        .done true { mem with itable := mem.itable.setLock ip (some self) }
      else
        .stop .schedLocks
    else
      .done false { mem with itable := mem.itable.dropRef ip })
  if last then ifree sb ip else pure ()

def iunlockput [DecidableEq Agent] (ip : Fin ninode) : FsProg Agent Unit := do
  iunlock ip
  iput sb ip

/-- The loop of readi(). `dst` tells for a chunk whether either_copyout()
copies it; none is the return value -1. -/
def readiLoop (ip : Fin ninode) (dst : Nat → Nat → Bool) :
    Nat → Nat → Nat → List UInt8 → FsProg Agent (Option (List UInt8))
  | 0, _, _, read => pure (some read)
  | rounds + 1, off, left, read =>
    if left = 0 then
      pure (some read)
    else do
      let addr ← bmap sb ip (off / bsize)
      if addr = 0 then
        pure (some read)
      else
        let m := min left (bsize - off % bsize)
        let bytes ← .perform (.block .readi addr fun data =>
          (data.bytes (off % bsize) m, data, false))
        if dst read.length m then
          readiLoop ip dst rounds (off + m) (left - m) (read ++ bytes)
        else
          pure none

/-- `off` and `n` are of type uint. -/
def readi (ip : Fin ninode) (dst : Nat → Nat → Bool) (off n : Nat) :
    FsProg Agent (Option (List UInt8)) := do
  let entry ← readIp ip
  let size := entry.copy.size
  if size < off ∨ (off + n) % 2 ^ 32 < off then
    pure (some [])
  else
    let count := if size < off + n then size - off else n
    readiLoop sb ip dst count off count []

/-- The loop of writei(): the offset and the bytes written when it ends. -/
def writeiLoop (ip : Fin ninode) (src : Source) : Nat → Nat → Nat → Nat → FsProg Agent (Nat × Nat)
  | 0, off, _, tot => pure (off, tot)
  | rounds + 1, off, left, tot =>
    if left = 0 then
      pure (off, tot)
    else do
      let addr ← bmap sb ip (off / bsize)
      if addr = 0 then
        pure (off, tot)
      else
        let m := min left (bsize - off % bsize)
        let copied ← .perform (.copyin addr (off % bsize) src tot m)
        if copied then
          writeiLoop ip src rounds (off + m) (left - m) (tot + m)
        else
          pure (off, tot)

def writei (ip : Fin ninode) (src : Source) (off n : Nat) : FsProg Agent Int := do
  let entry ← readIp ip
  if entry.copy.size < off ∨ (off + n) % 2 ^ 32 < off then
    pure (-1)
  else if maxfile * bsize < off + n then
    pure (-1)
  else
    let (last, tot) ← writeiLoop sb ip src n off n 0
    writeIp ip fun copy =>
      { copy with size := if copy.size < last then last else copy.size }
    iupdate sb ip
    pure tot

/-! Directories. -/

def readDirent (dp : Fin ninode) (off : Nat) (reason : Failure) : FsProg Agent (List UInt8) := do
  match ← readi sb dp (fun _ _ => true) off direntSize with
  | some entry =>
    if entry.length = direntSize then pure entry else fail reason
  | none => fail reason

/-- The loop of dirlookup(): the inode number and the offset. -/
def dirlookupFrom (dp : Fin ninode) (name : List UInt8) :
    Nat → Nat → FsProg Agent (Option (Nat × Nat))
  | 0, _ => pure none
  | rounds + 1, off => do
      let dir ← readIp dp
      if off < dir.copy.size then
        let entry ← readDirent sb dp off .dirlookupRead
        if direntInum entry ≠ 0 ∧ namecmp name (direntName entry) then
          pure (some (direntInum entry, off))
        else
          dirlookupFrom dp name rounds (off + direntSize)
      else
        pure none

def dirlookup (dp : Fin ninode) (name : List UInt8) : FsProg Agent (Option (Fin ninode × Nat)) := do
  let dir ← readIp dp
  if dir.copy.type ≠ tDir then
    fail .dirlookupNotDir
  else
    match ← dirlookupFrom sb dp name (dir.copy.size / direntSize + 1) 0 with
    | some (inum, off) =>
      let ip ← iget inum
      pure (some (ip, off))
    | none => pure none

/-- The loop of dirlink(): the offset of an empty entry, or the end. -/
def dirlinkFrom (dp : Fin ninode) : Nat → Nat → FsProg Agent Nat
  | 0, off => pure off
  | rounds + 1, off => do
      let dir ← readIp dp
      if off < dir.copy.size then
        let entry ← readDirent sb dp off .dirlinkRead
        if direntInum entry = 0 then
          pure off
        else
          dirlinkFrom dp rounds (off + direntSize)
      else
        pure off

def dirlink (dp : Fin ninode) (name : List UInt8) (inum : Nat) : FsProg Agent Bool := do
  match ← dirlookup sb dp name with
  | some (ip, _) =>
    iput sb ip
    pure false
  | none =>
    let dir ← readIp dp
    let off ← dirlinkFrom sb dp (dir.copy.size / direntSize + 1) 0
    let written ← writei sb dp (.kernel (dirent inum name)) off direntSize
    pure (written = direntSize)

/-! Paths. -/

def skipelem (path : List UInt8) : Option (List UInt8 × List UInt8) :=
  let slash : UInt8 := 47
  match path.dropWhile (· = slash) with
  | [] => none
  | first :: rest =>
    some (((first :: rest).dropWhile (· ≠ slash)).dropWhile (· = slash),
      ((first :: rest).takeWhile (· ≠ slash)).take dirsiz)

variable [DecidableEq Agent]

/-- The loop of namex(). Every skipelem() shortens the path. -/
def namexLoop (nameiparent : Bool) : Nat → Fin ninode → List UInt8 →
    List UInt8 → FsProg Agent (Option (Fin ninode × List UInt8))
  | 0, ip, _, name => pure (some (ip, name))
  | rounds + 1, ip, path, name =>
    match skipelem path with
    | none =>
      if nameiparent then do
        iput sb ip
        pure none
      else
        pure (some (ip, name))
    | some (rest, element) => do
        ilock sb ip
        let entry ← readIp ip
        if entry.copy.type ≠ tDir then
          iunlockput sb ip
          pure none
        else if nameiparent = true ∧ rest = [] then
          iunlock ip
          pure (some (ip, element))
        else
          match ← dirlookup sb ip element with
          | none =>
            iunlockput sb ip
            pure none
          | some (next, _) =>
            iunlockput sb ip
            namexLoop nameiparent rounds next rest element

def namexStart (path : List UInt8) : FsProg Agent (Fin ninode) := do
  if path.head? = some 47 then
    iget rootino
  else
    let cwd ← readMem fun self mem => mem.cwd self
    idup cwd
    pure cwd

def namex (path : List UInt8) (nameiparent : Bool) :
    FsProg Agent (Option (Fin ninode × List UInt8)) := do
  let ip ← namexStart path
  namexLoop sb nameiparent (path.length + 1) ip path []

def namei (path : List UInt8) : FsProg Agent (Option (Fin ninode)) := do
  return (← namex sb path false).map Prod.fst

def nameiparent (path : List UInt8) : FsProg Agent (Option (Fin ninode × List UInt8)) :=
  namex sb path true

end Blocks

end Xv6Lottery.Disk
