import Xv6Lottery.Fs.Inode

namespace Xv6Lottery

open Function

/-! The inode table of fs.c, for processes that run at the same time. A step is
what a process does between two points where another one can come in; locks are
held across points as in the code. -/

structure InodeKey where
  dev : Nat
  inum : Inum
  deriving DecidableEq

/-- The part of a dinode that decides about its entry in the table. -/
structure DinodeMeta where
  type : FileType
  nlink : BitVec 16
  deriving DecidableEq

/-- A `struct inode`. `lock` is the process that holds the sleep lock; `copy`
are the fields that ilock() reads from the disk. -/
structure TableEntry (Process Copy : Type) where
  key : InodeKey
  ref : Nat
  lock : Option Process
  valid : Bool
  copy : Copy

structure InodeRef where
  slot : Fin ninode
  key : InodeKey
  deriving DecidableEq

abbrev Itable (Process Copy : Type) :=
  Fin ninode → TableEntry Process Copy

namespace Itable

variable {Process Copy : Type}

/-- The loop of iget(): the entry of the inode, or the first empty one. -/
def find (table : Itable Process Copy) (key : InodeKey) : List (Fin ninode) → Option (Fin ninode) →
      Option (Fin ninode) × Option (Fin ninode)
  | [], empty => (none, empty)
  | slot :: rest, empty =>
    if 0 < (table slot).ref ∧ (table slot).key = key then
      (some slot, empty)
    else if empty = none ∧ (table slot).ref = 0 then
      find table key rest (some slot)
    else
      find table key rest empty

def addRef (table : Itable Process Copy) (slot : Fin ninode) : Itable Process Copy :=
  update table slot { table slot with ref := (table slot).ref + 1 }

def recycle (table : Itable Process Copy) (slot : Fin ninode) (key : InodeKey) :
    Itable Process Copy :=
  update table slot { table slot with key := key, ref := 1, valid := false }

/-- iget() between acquire() and release(); none for the panic. -/
def iget (table : Itable Process Copy) (key : InodeKey) :
    Option (Itable Process Copy × Fin ninode) :=
  match table.find key (List.finRange ninode) none with
  | (some slot, _) => some (table.addRef slot, slot)
  | (none, some empty) => some (table.recycle empty key, empty)
  | (none, none) => none

def dropRef (table : Itable Process Copy) (slot : Fin ninode) : Itable Process Copy :=
  update table slot { table slot with ref := (table slot).ref - 1 }

def setLock (table : Itable Process Copy) (slot : Fin ninode)
    (holder : Option Process) : Itable Process Copy :=
  update table slot { table slot with lock := holder }

def setCopy (table : Itable Process Copy) (slot : Fin ninode) (valid : Bool)
    (copy : Copy) : Itable Process Copy :=
  update table slot { table slot with valid := valid, copy := copy }

end Itable

/-- Where a process is in the functions of the inode table. -/
inductive InodePoint where
  | idle
  /-- In iget(), before acquire(&itable.lock) and after it. -/
  | wantGet (key : InodeKey)
  | getting (key : InodeKey)
  /-- In idup(), with itable.lock. -/
  | duplicating (ref : InodeRef)
  /-- In ilock(), in acquiresleep(). -/
  | locking (ref : InodeRef)
  /-- In ilock(), with the sleep lock. -/
  | loading (ref : InodeRef)
  /-- In iput(), with itable.lock, before the test. -/
  | testing (ref : InodeRef)
  /-- In iput(), with itable.lock, at acquiresleep(). -/
  | freeing (ref : InodeRef)
  /-- In iput(), with the sleep lock, before itrunc(). -/
  | truncating (ref : InodeRef)
  /-- In iput(), with the sleep lock, before `ip->valid = 0`. -/
  | freed (ref : InodeRef)
  /-- In iput(), with the sleep lock, before releasesleep(). -/
  | releasing (ref : InodeRef)
  /-- In iput(), before the second acquire(&itable.lock). -/
  | retaking (ref : InodeRef)
  /-- In iput(), with itable.lock, before `ip->ref--`. -/
  | dropping (ref : InodeRef)
  /-- In ialloc(), before it looks at a dinode. -/
  | allocating (key : InodeKey) (type : FileType)
  deriving DecidableEq

namespace InodePoint

def HoldsTable : InodePoint → Prop
  | .getting _ | .duplicating _ | .testing _ | .freeing _ | .dropping _ => True
  | _ => False

/-- The reference the process has passed to the function it is in. -/
def uses : InodePoint → Option InodeRef
  | .duplicating ref | .locking ref | .loading ref | .testing ref
  | .freeing ref | .truncating ref | .freed ref | .releasing ref
  | .retaking ref | .dropping ref => some ref
  | _ => none

/-- The points of iput() without the sleep lock. -/
def PutsUnlocked : InodePoint → Prop
  | .testing _ | .freeing _ | .retaking _ | .dropping _ => True
  | _ => False

/-- The points of ilock() and iput() with the sleep lock. -/
def HoldsSleep : InodePoint → Prop
  | .loading _ | .truncating _ | .freed _ | .releasing _ => True
  | _ => False

end InodePoint

inductive TablePanic where
  | igetNoInodes
  | ilock
  | ilockNoType
  | iunlock
  deriving DecidableEq

structure InodeWorld (Process : Type) where
  ninodes : Nat
  dinode : InodeKey → DinodeMeta
  table : Itable Process DinodeMeta
  tableLock : Option Process
  point : Process → InodePoint
  /-- The references each process has and has not put. -/
  refs : Process → List InodeRef
  panic : Option TablePanic

inductive InodeEvent (Process : Type) where
  | callIget (self : Process) (key : InodeKey)
  | acquireGet (self : Process)
  | iget (self : Process)
  | callIdup (self : Process) (ref : InodeRef)
  | idup (self : Process)
  | callIlock (self : Process) (ref : InodeRef)
  | acquiresleep (self : Process)
  | load (self : Process)
  | iunlock (self : Process) (slot : Fin ninode)
  /-- The holder of the sleep lock changes the copy or calls iupdate(). -/
  | change (self : Process) (slot : Fin ninode) (copy : DinodeMeta)
  | iupdate (self : Process) (slot : Fin ninode)
  | callIput (self : Process) (ref : InodeRef)
  | test (self : Process)
  /-- acquiresleep() and release(&itable.lock) in iput(). -/
  | acquireFree (self : Process)
  /-- itrunc(), `ip->type = 0` and iupdate(). -/
  | truncate (self : Process)
  | invalidate (self : Process)
  | releasesleep (self : Process)
  | retake (self : Process)
  | drop (self : Process)
  | callIalloc (self : Process) (dev : Nat) (type : FileType)
  | tryInode (self : Process)
  /-- fork() and the file table pass references on. -/
  | give (self other : Process) (ref : InodeRef)

namespace InodeWorld

variable {Process : Type} [DecidableEq Process]

def initial (ninodes : Nat) (dinode : InodeKey → DinodeMeta)
    (copy : DinodeMeta) : InodeWorld Process where
  ninodes := ninodes
  dinode := dinode
  table := fun _ =>
    { key := ⟨0, 0⟩, ref := 0, lock := none, valid := false, copy := copy }
  tableLock := none
  point := fun _ => .idle
  refs := fun _ => []
  panic := none

def setPoint (world : InodeWorld Process) (self : Process)
    (point : InodePoint) : InodeWorld Process :=
  { world with point := update world.point self point }

def addRef (world : InodeWorld Process) (self : Process) (ref : InodeRef) : InodeWorld Process :=
  { world with
      refs := update world.refs self (ref :: world.refs self) }

def eraseRef (world : InodeWorld Process) (self : Process) (ref : InodeRef) : InodeWorld Process :=
  { world with
      refs := update world.refs self ((world.refs self).erase ref) }

def setDinode (world : InodeWorld Process) (key : InodeKey)
    (dinode : DinodeMeta) : InodeWorld Process :=
  { world with dinode := update world.dinode key dinode }

/-- iget() up to the release() and the return. -/
def iget (world : InodeWorld Process) (self : Process) (key : InodeKey) : InodeWorld Process :=
  match world.table.iget key with
  | none => { world with panic := some .igetNoInodes }
  | some (table, slot) =>
    ({ world with table := table, tableLock := none }.addRef self ⟨slot, key⟩).setPoint self .idle

def idup (world : InodeWorld Process) (self : Process) (ref : InodeRef) : InodeWorld Process :=
  ({ world with
      table := world.table.addRef ref.slot
      tableLock := none }.addRef self ref).setPoint self .idle

/-- ilock() up to acquiresleep(). -/
def ilock (world : InodeWorld Process) (self : Process) (ref : InodeRef) : InodeWorld Process :=
  if (world.table ref.slot).ref < 1 then
    { world with panic := some .ilock }
  else
    world.setPoint self (.locking ref)

/-- ilock() from acquiresleep() on. -/
def load (world : InodeWorld Process) (self : Process) (ref : InodeRef) : InodeWorld Process :=
  if (world.table ref.slot).valid then
    world.setPoint self .idle
  else
    let dinode := world.dinode (world.table ref.slot).key
    let loaded := { world with
      table := world.table.setCopy ref.slot true dinode }
    if dinode.type = .free then
      { loaded with panic := some .ilockNoType }
    else
      loaded.setPoint self .idle

def iunlock (world : InodeWorld Process) (self : Process)
    (slot : Fin ninode) : InodeWorld Process :=
  if (world.table slot).lock ≠ some self ∨ (world.table slot).ref < 1 then
    { world with panic := some .iunlock }
  else
    { world with table := world.table.setLock slot none }

def test (world : InodeWorld Process) (self : Process) (ref : InodeRef) : InodeWorld Process :=
  let ip := world.table ref.slot
  if ip.ref = 1 ∧ ip.valid = true ∧ ip.copy.nlink = 0 then
    world.setPoint self (.freeing ref)
  else
    world.setPoint self (.dropping ref)

def truncate (world : InodeWorld Process) (self : Process) (ref : InodeRef) : InodeWorld Process :=
  let ip := world.table ref.slot
  let copy := { ip.copy with type := .free }
  ({ world with table := world.table.setCopy ref.slot ip.valid copy }.setDinode
    ip.key copy).setPoint self (.freed ref)

def invalidate (world : InodeWorld Process) (self : Process)
    (ref : InodeRef) : InodeWorld Process :=
  { world with
      table := world.table.setCopy ref.slot false
        (world.table ref.slot).copy }.setPoint self (.releasing ref)

def drop (world : InodeWorld Process) (self : Process) (ref : InodeRef) : InodeWorld Process :=
  ({ world with
      table := world.table.dropRef ref.slot
      tableLock := none }.eraseRef self ref).setPoint self .idle

def tryInode (world : InodeWorld Process) (self : Process) (key : InodeKey)
    (type : FileType) : InodeWorld Process :=
  if key.inum < world.ninodes then
    if (world.dinode key).type = .free then
      (world.setDinode key { type := type, nlink := 0 }).setPoint self (.wantGet key)
    else
      world.setPoint self (.allocating { key with inum := key.inum + 1 } type)
  else
    world.setPoint self .idle

def At (world : InodeWorld Process) (self : Process) (point : InodePoint) :
    Prop :=
  world.panic = none ∧ world.point self = point

inductive Step : InodeWorld Process → InodeEvent Process → InodeWorld Process → Prop
  | callIget : world.At self .idle →
      Step world (.callIget self key) (world.setPoint self (.wantGet key))
  | acquireGet : world.At self (.wantGet key) → world.tableLock = none →
      Step world (.acquireGet self)
        ({ world with tableLock := some self }.setPoint self (.getting key))
  | iget : world.At self (.getting key) → Step world (.iget self) (world.iget self key)
  | callIdup : world.At self .idle → ref ∈ world.refs self → world.tableLock = none →
      Step world (.callIdup self ref) ({ world with tableLock := some self }.setPoint self
          (.duplicating ref))
  | idup : world.At self (.duplicating ref) → Step world (.idup self) (world.idup self ref)
  | callIlock : world.At self .idle → ref ∈ world.refs self →
      Step world (.callIlock self ref) (world.ilock self ref)
  | acquiresleep : world.At self (.locking ref) → (world.table ref.slot).lock = none →
      Step world (.acquiresleep self)
        ({ world with
            table := world.table.setLock ref.slot (some self) }.setPoint self
          (.loading ref))
  | load : world.At self (.loading ref) → Step world (.load self) (world.load self ref)
  | iunlock : world.At self .idle → Step world (.iunlock self slot) (world.iunlock self slot)
  | change : world.At self .idle → (world.table slot).lock = some self →
      Step world (.change self slot copy)
        { world with
            table := world.table.setCopy slot (world.table slot).valid copy }
  | iupdate : world.At self .idle → (world.table slot).lock = some self →
      Step world (.iupdate self slot)
        (world.setDinode (world.table slot).key (world.table slot).copy)
  -- The caller has unlocked the inode.
  | callIput : world.At self .idle → ref ∈ world.refs self →
      (world.table ref.slot).lock ≠ some self → world.tableLock = none →
      Step world (.callIput self ref)
        ({ world with tableLock := some self }.setPoint self (.testing ref))
  | test : world.At self (.testing ref) → Step world (.test self) (world.test self ref)
  | acquireFree : world.At self (.freeing ref) → (world.table ref.slot).lock = none →
      Step world (.acquireFree self)
        ({ world with
            table := world.table.setLock ref.slot (some self)
            tableLock := none }.setPoint self (.truncating ref))
  | truncate : world.At self (.truncating ref) →
      Step world (.truncate self) (world.truncate self ref)
  | invalidate : world.At self (.freed ref) →
      Step world (.invalidate self) (world.invalidate self ref)
  | releasesleep : world.At self (.releasing ref) → Step world (.releasesleep self)
        ({ world with table := world.table.setLock ref.slot none }.setPoint self (.retaking ref))
  | retake : world.At self (.retaking ref) → world.tableLock = none → Step world (.retake self)
        ({ world with tableLock := some self }.setPoint self (.dropping ref))
  | drop : world.At self (.dropping ref) → Step world (.drop self) (world.drop self ref)
  | callIalloc : world.At self .idle → Step world (.callIalloc self dev type)
        (world.setPoint self (.allocating ⟨dev, 1⟩ type))
  | tryInode : world.At self (.allocating key type) →
      Step world (.tryInode self) (world.tryInode self key type)
  -- A process keeps its reference to an inode that it has locked.
  | give : world.At self .idle → ref ∈ world.refs self →
      (world.table ref.slot).lock ≠ some self → other ≠ self → Step world (.give self other ref)
        ((world.eraseRef self ref).addRef other ref)

end InodeWorld

end Xv6Lottery
