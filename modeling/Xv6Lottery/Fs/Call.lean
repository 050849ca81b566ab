import Xv6Lottery.Fs.Inode

namespace Xv6Lottery

open Function

/-! The system calls of sysfile.c on names and descriptors, with the parts of
file.c and proc.c they use. begin_op() and end_op() make a call atomic and
are left out. -/

/-! Open files. -/

def Fs.setFile (fs : Fs) (f : Fin nfile) (file : File) : Fs :=
  { fs with ftable := update fs.ftable f file }

def Fs.setProc (fs : Fs) (pid : Slot) (process : FsProc) : Fs :=
  { fs with proc := update fs.proc pid process }

def filealloc : FsM (Option (Fin nfile)) := do
  let fs ← get
  match (List.finRange nfile).find? fun f => (fs.ftable f).ref = 0 with
  | none => return none
  | some f =>
    modify fun fs => fs.setFile f { fs.ftable f with ref := 1 }
    return some f

def filedup (f : Fin nfile) : FsM Unit := do
  let fs ← get
  if (fs.ftable f).ref < 1 then
    throw .filedup
  else
    modify fun fs => fs.setFile f { fs.ftable f with ref := (fs.ftable f).ref + 1 }

def fileclose (f : Fin nfile) : FsM Unit := do
  let fs ← get
  if (fs.ftable f).ref < 1 then
    throw .fileclose
  else if 1 < (fs.ftable f).ref then
    modify fun fs => fs.setFile f { fs.ftable f with ref := (fs.ftable f).ref - 1 }
  else
    modify fun fs => fs.setFile f { ref := 0, ip := none }
    match (fs.ftable f).ip with
    | none => return ()
    | some ip => iput ip

def setOfile (pid : Slot) (fd : Fin nofile) (f : Option (Fin nfile)) : FsM Unit :=
  modify fun fs => fs.setProc pid { fs.proc pid with ofile := update (fs.proc pid).ofile fd f }

def fdalloc (pid : Slot) (f : Fin nfile) : FsM (Option (Fin nofile)) := do
  let fs ← get
  match (List.finRange nofile).find? fun fd =>
      (fs.proc pid).ofile fd = none with
  | none => return none
  | some fd =>
    setOfile pid fd (some f)
    return some fd

/-! The calls. A path of MAXPATH bytes or more is refused by argstr(). -/

def argstr (path : Path) : Bool := path.length < maxpath

def dot : Name := ['.']

def dotdot : Name := ['.', '.']

def linkAt (pid : Slot) (new : Path) (ip : Inum) : FsM Bool := do
  match ← nameiparent pid new with
  | none => return false
  | some (dp, name) =>
    ilock dp
    let linked ← dirlink dp name ip
    iunlockput dp
    return linked

def sysLink (pid : Slot) (old new : Path) : FsM Int := do
  if argstr old ∧ argstr new then
    match ← namei pid old with
    | none => return -1
    | some ip =>
      ilock ip
      let dinode ← readInode ip
      if dinode.type = .dir then
        iunlockput ip
        return -1
      else
        updateInode ip fun dinode =>
          { dinode with nlink := dinode.nlink + 1 }
        iunlock ip
        let linked ← linkAt pid new ip
        if linked then
          iput ip
          return 0
        else
          ilock ip
          updateInode ip fun dinode =>
            { dinode with nlink := dinode.nlink - 1 }
          iunlockput ip
          return -1
  else
    return -1

def isdirempty (dinode : Dinode) : Bool :=
  (dinode.entries.drop 2).all (·.inum = 0)

/-- sys_unlink() from the entry on that it found. -/
def unlinkEntry (dp : Inum) (index : Nat) (ip : Inum) : FsM Int := do
  ilock ip
  let dinode ← readInode ip
  if dinode.nlink.toInt < 1 then
    throw .unlinkNlink
  else if dinode.type = .dir ∧ isdirempty dinode = false then
    iunlockput ip
    iunlockput dp
    return -1
  else
    let written ← writei dp index { inum := 0, name := [] }
    if written then
      if dinode.type = .dir then
        updateInode dp fun dinode =>
          { dinode with nlink := dinode.nlink - 1 }
      iunlockput dp
      updateInode ip fun dinode => { dinode with nlink := dinode.nlink - 1 }
      iunlockput ip
      return 0
    else
      throw .unlinkWritei

def sysUnlink (pid : Slot) (path : Path) : FsM Int := do
  if argstr path then
    match ← nameiparent pid path with
    | none => return -1
    | some (dp, name) =>
      ilock dp
      if namecmp name dot ∨ namecmp name dotdot then
        iunlockput dp
        return -1
      else
        match ← dirlookup dp name with
        | none =>
          iunlockput dp
          return -1
        | some (index, ip) => unlinkEntry dp index ip
  else
    return -1

/-- The entries that create() makes; false is its `goto fail`. -/
def createEntries (dp ip : Inum) (name : Name) (type : FileType) : FsM Bool := do
  if type = .dir then
    let self ← dirlink ip dot ip
    if self then
      let parent ← dirlink ip dotdot dp
      if parent then
        dirlink dp name ip
      else
        return false
    else
      return false
  else
    dirlink dp name ip

/-- create() for a name that the directory does not have. -/
def createFresh (dp : Inum) (name : Name) (type : FileType)
    (major minor : BitVec 16) : FsM (Option Inum) := do
  match ← ialloc type with
  | none =>
    iunlockput dp
    return none
  | some ip =>
    ilock ip
    updateInode ip fun dinode =>
      { dinode with major := major, minor := minor, nlink := 1 }
    let made ← createEntries dp ip name type
    if made then
      if type = .dir then
        updateInode dp fun dinode =>
          { dinode with nlink := dinode.nlink + 1 }
      iunlockput dp
      return some ip
    else
      updateInode ip fun dinode => { dinode with nlink := 0 }
      iunlockput ip
      iunlockput dp
      return none

def create (pid : Slot) (path : Path) (type : FileType)
    (major minor : BitVec 16) : FsM (Option Inum) := do
  match ← nameiparent pid path with
  | none => return none
  | some (dp, name) =>
    ilock dp
    match ← dirlookup dp name with
    | some (_, ip) =>
      iunlockput dp
      ilock ip
      let dinode ← readInode ip
      if type = .file ∧ (dinode.type = .file ∨ dinode.type = .device) then
        return some ip
      else
        iunlockput ip
        return none
    | none => createFresh dp name type major minor

def oCreate : BitVec 32 := 0x200

def oTrunc : BitVec 32 := 0x400

/-- The inode that sys_open() opens, locked. -/
def openInode (pid : Slot) (path : Path) (omode : BitVec 32) : FsM (Option Inum) := do
  if omode &&& oCreate ≠ 0 then
    create pid path .file 0 0
  else
    match ← namei pid path with
    | none => return none
    | some ip =>
      ilock ip
      let dinode ← readInode ip
      if dinode.type = .dir ∧ omode ≠ 0 then
        iunlockput ip
        return none
      else
        return some ip

def openFile (pid : Slot) (ip : Inum) (omode : BitVec 32) : FsM Int := do
  let dinode ← readInode ip
  if dinode.type = .device ∧ (dinode.major.toInt < 0 ∨ ndev ≤ dinode.major.toInt) then
    iunlockput ip
    return -1
  else
    match ← filealloc with
    | none =>
      iunlockput ip
      return -1
    | some f =>
      match ← fdalloc pid f with
      | none =>
        fileclose f
        iunlockput ip
        return -1
      | some fd =>
        modify fun fs => fs.setFile f { fs.ftable f with ip := some ip }
        if omode &&& oTrunc ≠ 0 ∧ dinode.type = .file then
          itrunc ip
        iunlock ip
        return fd.val

def sysOpen (pid : Slot) (path : Path) (omode : BitVec 32) : FsM Int := do
  if argstr path then
    match ← openInode pid path omode with
    | none => return -1
    | some ip => openFile pid ip omode
  else
    return -1

def makeNode (pid : Slot) (path : Path) (type : FileType) (major minor : BitVec 16) : FsM Int := do
  if argstr path then
    match ← create pid path type major minor with
    | none => return -1
    | some ip =>
      iunlockput ip
      return 0
  else
    return -1

def sysMkdir (pid : Slot) (path : Path) : FsM Int :=
  makeNode pid path .dir 0 0

/-- The `int` arguments are cut to the `short` parameters of create(). -/
def sysMknod (pid : Slot) (path : Path) (major minor : BitVec 32) : FsM Int :=
  makeNode pid path .device (major.truncate 16) (minor.truncate 16)

def setCwd (pid : Slot) (cwd : Option Inum) : FsM Unit :=
  modify fun fs => fs.setProc pid { fs.proc pid with cwd := cwd }

def putCwd (pid : Slot) : FsM Unit := do
  let fs ← get
  match (fs.proc pid).cwd with
  | none => throw .kerneltrap
  | some cwd => iput cwd

def sysChdir (pid : Slot) (path : Path) : FsM Int := do
  if argstr path then
    match ← namei pid path with
    | none => return -1
    | some ip =>
      ilock ip
      let dinode ← readInode ip
      if dinode.type ≠ .dir then
        iunlockput ip
        return -1
      else
        iunlock ip
        putCwd pid
        setCwd pid (some ip)
        return 0
  else
    return -1

def sysClose (pid : Slot) (fd : Int) : FsM Int := do
  if valid : 0 ≤ fd ∧ fd.toNat < nofile then
    let fs ← get
    match (fs.proc pid).ofile ⟨fd.toNat, valid.2⟩ with
    | none => return -1
    | some f =>
      setOfile pid ⟨fd.toNat, valid.2⟩ none
      fileclose f
      return 0
  else
    return -1

def closeAll (pid : Slot) : List (Fin nofile) → FsM Unit
  | [] => return ()
  | fd :: rest => do
      let fs ← get
      match (fs.proc pid).ofile fd with
      | none => closeAll pid rest
      | some f =>
        fileclose f
        setOfile pid fd none
        closeAll pid rest

def exitFiles (pid : Slot) : FsM Int := do
  if pid = initproc then
    throw .initExiting
  else
    closeAll pid (List.finRange nofile)
    putCwd pid
    setCwd pid none
    return 0

def dupAll (pid child : Slot) : List (Fin nofile) → FsM Unit
  | [] => return ()
  | fd :: rest => do
      let fs ← get
      match (fs.proc pid).ofile fd with
      | none => dupAll pid child rest
      | some f =>
        filedup f
        setOfile child fd (some f)
        dupAll pid child rest

def forkFiles (pid child : Slot) : FsM Int := do
  dupAll pid child (List.finRange nofile)
  let fs ← get
  match (fs.proc pid).cwd with
  | none => throw .kerneltrap
  | some cwd =>
    idup cwd
    setCwd child (some cwd)
    return 0

/-! Sequences of completed calls by any processes. -/

inductive FileCall where
  | mkdir (path : Path)
  | mknod (path : Path) (major minor : BitVec 32)
  | open (path : Path) (omode : BitVec 32)
  | link (old new : Path)
  | unlink (path : Path)
  | chdir (path : Path)
  | close (fd : Int)
  | exit
  | fork (child : Slot)

def FileCall.exec (pid : Slot) : FileCall → FsM Int
  | .mkdir path => sysMkdir pid path
  | .mknod path major minor => sysMknod pid path major minor
  | .open path omode => sysOpen pid path omode
  | .link old new => sysLink pid old new
  | .unlink path => sysUnlink pid path
  | .chdir path => sysChdir pid path
  | .close fd => sysClose pid fd
  | .exit => exitFiles pid
  | .fork child => forkFiles pid child

structure CallLabel where
  pid : Slot
  call : FileCall
  /-- What bmap() finds during the call. -/
  space : List Bool

/-- A process makes a call, which returns. A child takes a slot that no
process has. -/
structure Fs.Step (fs : Fs) (label : CallLabel) (next : Fs) : Prop where
  alive : (fs.proc label.pid).cwd ≠ none
  unused : ∀ child, label.call = .fork child → (fs.proc child).cwd = none
  returns : ∃ value, (label.call.exec label.pid).run
    { fs with space := label.space } = .ok (value, next)

end Xv6Lottery
