import Xv6Lottery.Lib.Outcome
import Xv6Lottery.Proc.Table

namespace Xv6Lottery

/-! The inode layer of fs.c, for calls that run one after the other.

ilock() copies a dinode into the inode table and every change of the copy is
followed by iupdate(), so the copy and the dinode are one record here. The
content of a directory is the list of its dirents; the content of a file is
read and written by no function modelled here. All inodes are on ROOTDEV. -/

abbrev Inum := Nat

abbrev Path := List Char

abbrev Name := List Char

inductive FileType where
  | free
  | dir
  | file
  | device
  deriving DecidableEq

structure Dirent where
  inum : Inum
  name : Name
  deriving DecidableEq

structure Dinode where
  type : FileType
  major : BitVec 16
  minor : BitVec 16
  nlink : BitVec 16
  entries : List Dirent
  deriving DecidableEq

abbrev Tree := Inum → Dinode

/-- The entry of the inode table for one inode; `ref = 0` if there is none. -/
structure InodeSlot where
  ref : Nat
  valid : Bool
  locked : Bool
  deriving DecidableEq

/-- A `struct file`; `ip` is none for FD_NONE. -/
structure File where
  ref : Nat
  ip : Option Inum
  deriving DecidableEq

/-- The part of `struct proc` that names files. -/
structure FsProc where
  cwd : Option Inum
  ofile : Fin nofile → Option (Fin nfile)

structure Fs where
  ninodes : Nat
  inode : Tree
  itable : Inum → InodeSlot
  ftable : Fin nfile → File
  proc : Slot → FsProc
  /-- What the next calls of bmap() for a new block find: a free block or
  none. Free blocks without end once the list is used up. -/
  space : List Bool

inductive Panic where
  | igetNoInodes
  | ilock
  | ilockNoType
  | iunlock
  | dirlookupNotDir
  | unlinkNlink
  | unlinkWritei
  | filedup
  | fileclose
  | initExiting
  /-- A second acquiresleep() of a lock by the same process. -/
  | deadlock
  /-- A null pointer followed. -/
  | kerneltrap
  deriving DecidableEq

abbrev FsM := Outcome.Prog Fs Panic

def Fs.setSlot (fs : Fs) (inum : Inum) (slot : InodeSlot) : Fs :=
  { fs with itable := Function.update fs.itable inum slot }

def Fs.setInode (fs : Fs) (inum : Inum) (dinode : Dinode) : Fs :=
  { fs with inode := Function.update fs.inode inum dinode }

def readInode (inum : Inum) : FsM Dinode := do
  return (← get).inode inum

def updateInode (inum : Inum) (change : Dinode → Dinode) : FsM Unit :=
  modify fun fs => fs.setInode inum (change (fs.inode inum))

def acquiresleep (inum : Inum) : FsM Unit := do
  let fs ← get
  if (fs.itable inum).locked then
    throw .deadlock
  else
    modify fun fs => fs.setSlot inum { fs.itable inum with locked := true }

def releasesleep (inum : Inum) : FsM Unit :=
  modify fun fs => fs.setSlot inum { fs.itable inum with locked := false }

/-! Inodes. -/

def Fs.full (fs : Fs) : Bool :=
  ninode ≤ (List.range fs.ninodes).countP fun inum => 0 < (fs.itable inum).ref

def iget (inum : Inum) : FsM Unit := do
  let fs ← get
  if 0 < (fs.itable inum).ref then
    modify fun fs => fs.setSlot inum { fs.itable inum with ref := (fs.itable inum).ref + 1 }
  else if fs.full then
    throw .igetNoInodes
  else
    modify fun fs => fs.setSlot inum { fs.itable inum with ref := 1, valid := false }

def idup (inum : Inum) : FsM Unit :=
  modify fun fs => fs.setSlot inum { fs.itable inum with ref := (fs.itable inum).ref + 1 }

def ialloc (type : FileType) : FsM (Option Inum) := do
  let fs ← get
  match (List.range' 1 (fs.ninodes - 1)).find? fun inum =>
      (fs.inode inum).type = .free with
  | none => return none
  | some inum =>
    updateInode inum fun _ =>
      { type := type, major := 0, minor := 0, nlink := 0, entries := [] }
    iget inum
    return some inum

def ilock (inum : Inum) : FsM Unit := do
  let fs ← get
  if (fs.itable inum).ref < 1 then
    throw .ilock
  else
    acquiresleep inum
    let fs ← get
    if (fs.itable inum).valid then
      return ()
    else
      modify fun fs => fs.setSlot inum { fs.itable inum with valid := true }
      if (fs.inode inum).type = .free then
        throw .ilockNoType
      else
        return ()

def iunlock (inum : Inum) : FsM Unit := do
  let fs ← get
  if (fs.itable inum).locked = false ∨ (fs.itable inum).ref < 1 then
    throw .iunlock
  else
    releasesleep inum

def itrunc (inum : Inum) : FsM Unit :=
  updateInode inum ({ · with entries := [] })

def iput (inum : Inum) : FsM Unit := do
  let fs ← get
  if (fs.itable inum).ref = 1 ∧ (fs.itable inum).valid = true ∧ (fs.inode inum).nlink = 0 then
    acquiresleep inum
    itrunc inum
    updateInode inum ({ · with type := .free })
    modify fun fs => fs.setSlot inum { fs.itable inum with valid := false }
    releasesleep inum
  modify fun fs => fs.setSlot inum { fs.itable inum with ref := (fs.itable inum).ref - 1 }

def iunlockput (inum : Inum) : FsM Unit := do
  iunlock inum
  iput inum

/-! Directories. -/

def namecmp (first second : Name) : Bool :=
  first.take dirsiz = second.take dirsiz

/-- The loop of dirlookup(): the index of the entry and its inode number. -/
def scanEntries (name : Name) : List Dirent → Nat → Option (Nat × Inum)
  | [], _ => none
  | entry :: rest, index =>
    if entry.inum = 0 then
      scanEntries name rest (index + 1)
    else if namecmp name entry.name then
      some (index, entry.inum)
    else
      scanEntries name rest (index + 1)

def dirlookup (dp : Inum) (name : Name) : FsM (Option (Nat × Inum)) := do
  let dinode ← readInode dp
  if dinode.type ≠ .dir then
    throw .dirlookupNotDir
  else
    match scanEntries name dinode.entries 0 with
    | none => return none
    | some (index, inum) =>
      iget inum
      return some (index, inum)

def bmap : FsM Bool := do
  let fs ← get
  match fs.space with
  | [] => return true
  | found :: rest =>
    modify ({ · with space := rest })
    return found

def blockEntries : Nat := bsize / 16

def maxEntries : Nat := maxfile * blockEntries

def appendEntry (dp : Inum) (entry : Dirent) (found : Bool) : FsM Bool := do
  if found then
    updateInode dp fun dinode =>
      { dinode with entries := dinode.entries ++ [entry] }
    return true
  else
    return false

/-- writei() of one dirent at an index up to the end of the directory. -/
def writei (dp : Inum) (index : Nat) (entry : Dirent) : FsM Bool := do
  let dinode ← readInode dp
  if index < dinode.entries.length then
    updateInode dp fun dinode =>
      { dinode with entries := dinode.entries.set index entry }
    return true
  else if maxEntries < index + 1 then
    return false
  else if index % blockEntries = 0 then
    let found ← bmap
    appendEntry dp entry found
  else
    appendEntry dp entry true

/-- The `inum` of a dirent is a ushort. -/
def dirlink (dp : Inum) (name : Name) (inum : Inum) : FsM Bool := do
  match ← dirlookup dp name with
  | some (_, ip) =>
    iput ip
    return false
  | none =>
    let dinode ← readInode dp
    writei dp (dinode.entries.findIdx (·.inum = 0))
      { inum := inum % 2 ^ 16, name := name.take dirsiz }

/-! Paths. -/

def skipelem (path : Path) : Option (Path × Name) :=
  match path.dropWhile (· = '/') with
  | [] => none
  | first :: rest =>
    some (((first :: rest).dropWhile (· ≠ '/')).dropWhile (· = '/'),
      ((first :: rest).takeWhile (· ≠ '/')).take dirsiz)

def namexEnd (nameiparent : Bool) (ip : Inum) (name : Name) : FsM (Option (Inum × Name)) := do
  if nameiparent then
    iput ip
    return none
  else
    return some (ip, name)

/-- The loop of namex(). Every skipelem() shortens the path, so the length of
the path bounds the number of rounds. -/
def namexLoop (nameiparent : Bool) : Nat → Inum → Path → Name → FsM (Option (Inum × Name))
  | 0, ip, _, name => namexEnd nameiparent ip name
  | rounds + 1, ip, path, name =>
    match skipelem path with
    | none => namexEnd nameiparent ip name
    | some (rest, element) => do
        ilock ip
        let dinode ← readInode ip
        if dinode.type ≠ .dir then
          iunlockput ip
          return none
        else if nameiparent = true ∧ rest = [] then
          iunlock ip
          return some (ip, element)
        else
          match ← dirlookup ip element with
          | none =>
            iunlockput ip
            return none
          | some (_, next) =>
            iunlockput ip
            namexLoop nameiparent rounds next rest element

def namexStart (pid : Slot) (path : Path) : FsM Inum := do
  if path.head? = some '/' then
    iget rootino
    return rootino
  else
    match ((← get).proc pid).cwd with
    | none => throw .kerneltrap
    | some cwd =>
      idup cwd
      return cwd

def namex (pid : Slot) (path : Path) (nameiparent : Bool) : FsM (Option (Inum × Name)) := do
  let ip ← namexStart pid path
  namexLoop nameiparent path.length ip path []

def namei (pid : Slot) (path : Path) : FsM (Option Inum) := do
  return (← namex pid path false).map Prod.fst

def nameiparent (pid : Slot) (path : Path) : FsM (Option (Inum × Name)) :=
  namex pid path true

end Xv6Lottery
