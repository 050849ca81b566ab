import Xv6Lottery.Disk.Program

/-! file.c and the system calls of sysfile.c on files and names, as
programs. -/

namespace Xv6Lottery.Disk

open Concurrent Function

abbrev Path := List UInt8

section Files

variable (sb : Superblock) {Agent : Type}

/-! Open files. -/

def Mem.setFile (mem : Mem Agent) (f : Fin nfile) (file : OpenFile) : Mem Agent :=
  { mem with ftable := update mem.ftable f file }

def filealloc : FsProg Agent (Option (Fin nfile)) :=
  .perform (.mem fun _ mem =>
    match (List.finRange nfile).find? fun f => (mem.ftable f).ref = 0 with
    | none => .done none mem
    | some f => .done (some f) (mem.setFile f { mem.ftable f with ref := 1 }))

/-- The critical section of fileclose(): the file if it was the last
reference. -/
def filedrop (f : Fin nfile) : FsProg Agent (Option OpenFile) :=
  .perform (.mem fun _ mem =>
    let file := mem.ftable f
    if file.ref < 1 then
      .stop .fileclose
    else if 1 < file.ref then
      .done none (mem.setFile f { file with ref := file.ref - 1 })
    else
      .done (some file) (mem.setFile f { file with ref := 0, kind := .none }))

def fileclose (f : Fin nfile) : FsProg Agent Unit := do
  match ← filedrop f with
  | none => pure ()
  | some file =>
    if file.kind = .none then
      pure ()
    else
      beginOp
      iput sb file.ip
      endOp

def advance (f : Fin nfile) (count : Nat) : FsProg Agent Unit :=
  writeMem fun _ mem => mem.setFile f
    { mem.ftable f with off := ((mem.ftable f).off + count) % 2 ^ 32 }

variable [DecidableEq Agent]

def uint (n : Int) : Nat := (n % 2 ^ 32).toNat

def filereadInode (f : Fin nfile) (ip : Fin ninode)
    (dst : Nat → Nat → Bool) (n : Int) : FsProg Agent Int := do
  ilock sb ip
  let file ← readMem fun _ mem => mem.ftable f
  match ← readi sb ip dst file.off (uint n) with
  | some bytes =>
    advance f bytes.length
    iunlock ip
    pure bytes.length
  | none =>
    iunlock ip
    pure (-1)

/-- `device` is what the driver of a device returns. -/
def fileread (f : Fin nfile) (dst : Nat → Nat → Bool) (n device : Int) : FsProg Agent Int := do
  let file ← readMem fun _ mem => mem.ftable f
  if file.readable = false then
    pure (-1)
  else
    match file.kind with
    | .device => pure device
    | .inode => filereadInode sb f file.ip dst n
    | .none => fail .fileread

def writeMax : Nat := (maxOpBlocks - 1 - 1 - 2) / 2 * bsize

/-- One transaction of filewrite(). -/
def filewriteChunk (f : Fin nfile) (ip : Fin ninode) (src : Source)
    (count : Nat) : FsProg Agent Int := do
  beginOp
  ilock sb ip
  let file ← readMem fun _ mem => mem.ftable f
  let written ← writei sb ip src file.off count
  advance f written.toNat
  iunlock ip
  endOp
  pure written

/-- The loop of filewrite(), from byte `i` on. Every round but the last
writes a byte or more. -/
def filewriteLoop (f : Fin nfile) (ip : Fin ninode) (src : Source)
    (n : Int) : Nat → Nat → FsProg Agent Int
  | 0, i => pure (if (i : Int) = n then n else -1)
  | rounds + 1, i =>
    if (i : Int) < n then do
      let count := min (n - i).toNat writeMax
      let written ← filewriteChunk sb f ip (fun at_ => src (i + at_)) count
      if written = count then
        filewriteLoop f ip src n rounds (i + count)
      else
        pure (-1)
    else
      pure (if (i : Int) = n then n else -1)

def filewrite (f : Fin nfile) (src : Source) (n device : Int) : FsProg Agent Int := do
  let file ← readMem fun _ mem => mem.ftable f
  if file.writable = false then
    pure (-1)
  else
    match file.kind with
    | .device => pure device
    | .inode => filewriteLoop sb f file.ip src n (n.toNat + 1) 0
    | .none => fail .filewrite

end Files

section Calls

variable (sb : Superblock) {Agent : Type} [DecidableEq Agent]

/-! Descriptors. -/

def argfd (fd : Option (Fin nofile)) : FsProg Agent (Option (Fin nofile × Fin nfile)) :=
  readMem fun self mem => fd.bind fun fd =>
    (mem.ofile self fd).map fun f => (fd, f)

def setOfile (fd : Fin nofile) (f : Option (Fin nfile)) : FsProg Agent Unit :=
  writeMem fun self mem => { mem with
    ofile := update mem.ofile self (update (mem.ofile self) fd f) }

def fdalloc (f : Fin nfile) : FsProg Agent (Option (Fin nofile)) := do
  let free ← readMem fun self mem =>
    (List.finRange nofile).find? fun fd => mem.ofile self fd = none
  match free with
  | none => pure none
  | some fd =>
    setOfile fd (some f)
    pure (some fd)

def sysRead (fd : Option (Fin nofile)) (dst : Nat → Nat → Bool)
    (n device : Int) : FsProg Agent Int := do
  match ← argfd fd with
  | none => pure (-1)
  | some (_, f) => fileread sb f dst n device

def sysWrite (fd : Option (Fin nofile)) (src : Source) (n device : Int) : FsProg Agent Int := do
  match ← argfd fd with
  | none => pure (-1)
  | some (_, f) => filewrite sb f src n device

def sysClose (fd : Option (Fin nofile)) : FsProg Agent Int := do
  match ← argfd fd with
  | none => pure (-1)
  | some (fd, f) =>
    setOfile fd none
    fileclose sb f
    pure 0

/-! Names. A path is none if argstr() fails. -/

def setNlink (ip : Fin ninode) (change : BitVec 16 → BitVec 16) : FsProg Agent Unit := do
  writeIp ip fun copy => { copy with nlink := change copy.nlink }
  iupdate sb ip

/-- The second half of sys_link(). -/
def linkAt (new : Path) (ip : Fin ninode) : FsProg Agent Bool := do
  match ← nameiparent sb new with
  | none => pure false
  | some (dp, name) =>
    ilock sb dp
    let entry ← readIp ip
    let linked ← dirlink sb dp name entry.key.inum
    iunlockput sb dp
    pure linked

def linkInode (new : Path) (ip : Fin ninode) : FsProg Agent Int := do
  setNlink sb ip (· + 1)
  iunlock ip
  let linked ← linkAt sb new ip
  if linked then
    iput sb ip
    endOp
    pure 0
  else
    ilock sb ip
    setNlink sb ip (· - 1)
    iunlockput sb ip
    endOp
    pure (-1)

def sysLink (old new : Option Path) : FsProg Agent Int :=
  match old, new with
  | some old, some new => do
      beginOp
      match ← namei sb old with
      | none =>
        endOp
        pure (-1)
      | some ip =>
        ilock sb ip
        let entry ← readIp ip
        if entry.copy.type = tDir then
          iunlockput sb ip
          endOp
          pure (-1)
        else
          linkInode sb new ip
  | _, _ => pure (-1)

def isdiremptyFrom (dp : Fin ninode) : Nat → Nat → FsProg Agent Bool
  | 0, _ => pure true
  | rounds + 1, off => do
      let dir ← readIp dp
      if off < dir.copy.size then
        let entry ← readDirent sb dp off .isdirempty
        if direntInum entry ≠ 0 then
          pure false
        else
          isdiremptyFrom dp rounds (off + direntSize)
      else
        pure true

def isdirempty (dp : Fin ninode) : FsProg Agent Bool := do
  let dir ← readIp dp
  isdiremptyFrom sb dp (dir.copy.size / direntSize + 1) (2 * direntSize)

def dot : List UInt8 := [46]

def dotdot : List UInt8 := [46, 46]

def unlinkBad (dp : Fin ninode) : FsProg Agent Int := do
  iunlockput sb dp
  endOp
  pure (-1)

/-- The test of `ip` in sys_unlink(): a directory has to be empty. -/
def unlinkable (ip : Fin ninode) : FsProg Agent Bool := do
  let entry ← readIp ip
  if entry.copy.nlink.toInt < 1 then
    fail .unlinkNlink
  else if entry.copy.type = tDir then
    isdirempty sb ip
  else
    pure true

/-- sys_unlink() from the first iunlockput() on. -/
def unlinkRest (dp ip : Fin ninode) : FsProg Agent Int := do
  iunlockput sb dp
  setNlink sb ip (· - 1)
  iunlockput sb ip
  endOp
  pure 0

/-- sys_unlink() from the entry on that it found. -/
def unlinkEntry (dp ip : Fin ninode) (off : Nat) : FsProg Agent Int := do
  ilock sb ip
  if ← unlinkable sb ip then
    let written ← writei sb dp (.kernel (List.replicate direntSize 0)) off direntSize
    if written ≠ direntSize then
      fail .unlinkWritei
    else
      let entry ← readIp ip
      if entry.copy.type = tDir then
        setNlink sb dp (· - 1)
        unlinkRest sb dp ip
      else
        unlinkRest sb dp ip
  else
    iunlockput sb ip
    unlinkBad sb dp

def sysUnlink (path : Option Path) : FsProg Agent Int :=
  match path with
  | none => pure (-1)
  | some path => do
      beginOp
      match ← nameiparent sb path with
      | none =>
        endOp
        pure (-1)
      | some (dp, name) =>
        ilock sb dp
        if namecmp name dot ∨ namecmp name dotdot then
          unlinkBad sb dp
        else
          match ← dirlookup sb dp name with
          | none => unlinkBad sb dp
          | some (ip, off) => unlinkEntry sb dp ip off

def createFail (dp ip : Fin ninode) : FsProg Agent (Option (Fin ninode)) := do
  setNlink sb ip fun _ => 0
  iunlockput sb ip
  iunlockput sb dp
  pure none

/-- The entries `.` and `..` of a new directory. -/
def createDots (dp ip : Fin ninode) : FsProg Agent Bool := do
  let child ← readIp ip
  if ← dirlink sb ip dot child.key.inum then
    let parent ← readIp dp
    dirlink sb ip dotdot parent.key.inum
  else
    pure false

/-- The end of create(), with the entry in the parent directory. -/
def createLink (dp ip : Fin ninode) (name : List UInt8)
    (type : BitVec 16) : FsProg Agent (Option (Fin ninode)) := do
  let child ← readIp ip
  if ← dirlink sb dp name child.key.inum then
    if type = tDir then
      setNlink sb dp (· + 1)
      iunlockput sb dp
      pure (some ip)
    else
      iunlockput sb dp
      pure (some ip)
  else
    createFail sb dp ip

/-- create() from the new inode on. -/
def createInode (dp ip : Fin ninode) (name : List UInt8) (type major minor : BitVec 16) :
    FsProg Agent (Option (Fin ninode)) := do
  ilock sb ip
  writeIp ip fun copy =>
    { copy with major := major, minor := minor, nlink := 1 }
  iupdate sb ip
  if type = tDir then
    if ← createDots sb dp ip then
      createLink sb dp ip name type
    else
      createFail sb dp ip
  else
    createLink sb dp ip name type

/-- create() of a name that exists. -/
def createOld (dp ip : Fin ninode) (type : BitVec 16) : FsProg Agent (Option (Fin ninode)) := do
  iunlockput sb dp
  ilock sb ip
  let entry ← readIp ip
  if type = tFile ∧ (entry.copy.type = tFile ∨ entry.copy.type = tDevice) then
    pure (some ip)
  else
    iunlockput sb ip
    pure none

/-- The inode that create() returns is locked. -/
def create (path : Path) (type major minor : BitVec 16) : FsProg Agent (Option (Fin ninode)) := do
  match ← nameiparent sb path with
  | none => pure none
  | some (dp, name) =>
    ilock sb dp
    match ← dirlookup sb dp name with
    | some (ip, _) => createOld sb dp ip type
    | none =>
      match ← ialloc sb type with
      | none =>
        iunlockput sb dp
        pure none
      | some ip => createInode sb dp ip name type major minor

def wronly (omode : Nat) : Bool := omode.testBit 0

def rdwr (omode : Nat) : Bool := omode.testBit 1

def ocreate (omode : Nat) : Bool := omode.testBit 9

def otrunc (omode : Nat) : Bool := omode.testBit 10

/-- sys_open() up to the inode, which is locked. -/
def openInode (path : Path) (omode : Nat) : FsProg Agent (Option (Fin ninode)) := do
  if ocreate omode then
    create sb path tFile 0 0
  else
    match ← namei sb path with
    | none => pure none
    | some ip =>
      ilock sb ip
      let entry ← readIp ip
      if entry.copy.type = tDir ∧ omode ≠ 0 then
        iunlockput sb ip
        pure none
      else
        pure (some ip)

def openFail (ip : Fin ninode) : FsProg Agent Int := do
  iunlockput sb ip
  endOp
  pure (-1)

def fillFile (f : Fin nfile) (ip : Fin ninode) (omode : Nat) : FsProg Agent Unit :=
  writeMem fun _ mem =>
    let file := mem.ftable f
    let entry := mem.itable ip
    let typed := if entry.copy.type = tDevice then
        { file with kind := .device, major := entry.copy.major }
      else
        { file with kind := .inode, off := 0 }
    mem.setFile f { typed with
      ip := ip
      readable := !wronly omode
      writable := wronly omode || rdwr omode }

def openDone (fd : Fin nofile) (ip : Fin ninode) : FsProg Agent Int := do
  iunlock ip
  endOp
  pure (fd : Nat)

/-- sys_open() with a file and a descriptor. -/
def openFile (fd : Fin nofile) (f : Fin nfile) (ip : Fin ninode)
    (omode : Nat) : FsProg Agent Int := do
  fillFile f ip omode
  let entry ← readIp ip
  if otrunc omode ∧ entry.copy.type = tFile then
    itrunc sb ip
    openDone fd ip
  else
    openDone fd ip

/-- sys_open() from the inode on. -/
def openFrom (ip : Fin ninode) (omode : Nat) : FsProg Agent Int := do
  let entry ← readIp ip
  if entry.copy.type = tDevice ∧ (entry.copy.major.toInt < 0 ∨ ndev ≤ entry.copy.major.toInt) then
    openFail sb ip
  else
    match ← filealloc with
    | none => openFail sb ip
    | some f =>
      match ← fdalloc f with
      | none =>
        fileclose sb f
        openFail sb ip
      | some fd => openFile sb fd f ip omode

def sysOpen (path : Option Path) (omode : Nat) : FsProg Agent Int :=
  match path with
  | none => pure (-1)
  | some path => do
      beginOp
      match ← openInode sb path omode with
      | none =>
        endOp
        pure (-1)
      | some ip => openFrom sb ip omode

/-- sys_mkdir() and sys_mknod(). -/
def sysCreate (path : Option Path) (type major minor : BitVec 16) : FsProg Agent Int := do
  beginOp
  match path with
  | none =>
    endOp
    pure (-1)
  | some path =>
    match ← create sb path type major minor with
    | none =>
      endOp
      pure (-1)
    | some ip =>
      iunlockput sb ip
      endOp
      pure 0

def sysMkdir (path : Option Path) : FsProg Agent Int :=
  sysCreate sb path tDir 0 0

def sysMknod (path : Option Path) (major minor : BitVec 16) : FsProg Agent Int :=
  sysCreate sb path tDevice major minor

/-! The functions of fs.c on the content of one inode, as a caller that
follows their rules would use them. -/

inductive InodeOp where
  | bmap (bn : Nat)
  /-- Of a file: only dirlink() and unlink write to directories. -/
  | writei (src : Source) (off n : Nat)
  | itrunc
  | nlink (value : BitVec 16)

def InodeOp.run (ip : Fin ninode) : InodeOp → FsProg Agent Unit
  | .bmap bn => do
      let _ ← Disk.bmap sb ip bn
      iupdate sb ip
  | .writei src off n => do
      let entry ← readIp ip
      if entry.copy.type = tDir then
        pure ()
      else
        let _ ← Disk.writei sb ip src off n
        pure ()
  | .itrunc => Disk.itrunc sb ip
  | .nlink value => setNlink sb ip fun _ => value

def InodeOp.runAll (ip : Fin ninode) : List InodeOp → FsProg Agent Unit
  | [] => pure ()
  | op :: rest => do
      op.run sb ip
      runAll ip rest

/-- A transaction on the inode of a number in the inode area. -/
def onInode (inum : Nat) (ops : List InodeOp) : FsProg Agent Int := do
  if inum < sb.ninodes then
    beginOp
    let ip ← iget inum
    ilock sb ip
    InodeOp.runAll sb ip ops
    iunlockput sb ip
    endOp
    pure 0
  else
    pure (-1)

inductive Call where
  | read (fd : Option (Fin nofile)) (dst : Nat → Nat → Bool) (n device : Int)
  | write (fd : Option (Fin nofile)) (src : Source) (n device : Int)
  | close (fd : Option (Fin nofile))
  | open_ (path : Option Path) (omode : Nat)
  | mkdir (path : Option Path)
  | mknod (path : Option Path) (major minor : BitVec 16)
  | link (old new : Option Path)
  | unlink (path : Option Path)
  | onInode (inum : Nat) (ops : List InodeOp)
  /-- What the bget() of any process may do at any time. -/
  | recycle (b : Nat)

def Call.body : Call → FsProg Agent Int
  | .read fd dst n device => sysRead sb fd dst n device
  | .write fd src n device => sysWrite sb fd src n device
  | .close fd => sysClose sb fd
  | .open_ path omode => sysOpen sb path omode
  | .mkdir path => sysMkdir sb path
  | .mknod path major minor => sysMknod sb path major minor
  | .link old new => sysLink sb old new
  | .unlink path => sysUnlink sb path
  | .onInode inum ops => Disk.onInode sb inum ops
  | .recycle b => do
      .perform (.recycle b)
      pure 0

end Calls

end Xv6Lottery.Disk
