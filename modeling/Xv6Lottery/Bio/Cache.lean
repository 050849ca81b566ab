import Xv6Lottery.Lib.Ring
import Xv6Lottery.Log.Header

namespace Xv6Lottery

open Function

/-! The buffer cache of bio.c, for processes that run at the same time. As in
the code, bget() takes a sleep lock after bcache.lock, and brelse() gives it up
before it takes bcache.lock. -/

structure BlockKey where
  dev : Nat
  blockno : Nat
  deriving DecidableEq

/-- A `struct buf`. `lock` is the process that holds the sleep lock. -/
structure Buf (Process : Type) where
  key : BlockKey
  refcnt : Nat
  valid : Bool
  data : Block
  lock : Option Process

abbrev BufNode := Option (Fin nbuf)

/-- Where a process is in bio.c. -/
inductive BioPoint where
  | idle
  /-- In bget(), before acquire(&bcache.lock) and after it. -/
  | wantGet (key : BlockKey)
  | getting (key : BlockKey)
  /-- In bget(), in acquiresleep(). -/
  | waiting (buf : Fin nbuf)
  /-- In bread(), with the sleep lock. -/
  | reading (buf : Fin nbuf)
  /-- In brelse(), after releasesleep(), without and with bcache.lock. -/
  | releasing (buf : Fin nbuf)
  | dropping (buf : Fin nbuf)
  /-- In bpin() and bunpin(), with bcache.lock. -/
  | pinning (buf : Fin nbuf)
  | unpinning (buf : Fin nbuf)
  deriving DecidableEq

namespace BioPoint

def HoldsCache : BioPoint → Prop
  | .getting _ | .dropping _ | .pinning _ | .unpinning _ => True
  | _ => False

/-- Counts of the process in `refcnt` apart from the buffers it has locked:
it waits for the buffer or has not come to `b->refcnt--`. -/
def counts (point : BioPoint) (buf : Fin nbuf) : Nat :=
  match point with
  | .waiting other | .releasing other | .dropping other =>
    if other = buf then 1 else 0
  | _ => 0

end BioPoint

inductive BioPanic where
  | bgetNoBuffers
  | bwrite
  | brelse
  deriving DecidableEq

structure Bio (Process : Type) where
  buf : Fin nbuf → Buf Process
  links : Ring.Links BufNode
  cacheLock : Option Process
  point : Process → BioPoint
  /-- Calls of bpin() that have not been undone. -/
  pins : Fin nbuf → Nat
  disk : BlockKey → Block
  panic : Option BioPanic
  /-- The time, and when each buffer was last put behind the head. -/
  clock : Nat
  released : Fin nbuf → Nat

inductive BioEvent (Process : Type) where
  | callBread (self : Process) (key : BlockKey)
  | acquireGet (self : Process)
  | bget (self : Process)
  | acquiresleep (self : Process)
  | read (self : Process)
  /-- The holder of a buffer changes its data. -/
  | change (self : Process) (buf : Fin nbuf) (data : Block)
  | bwrite (self : Process) (buf : Fin nbuf)
  | callBrelse (self : Process) (buf : Fin nbuf)
  | acquireDrop (self : Process)
  | drop (self : Process)
  | callBpin (self : Process) (buf : Fin nbuf)
  | bpin (self : Process)
  | callBunpin (self : Process) (buf : Fin nbuf)
  | bunpin (self : Process)

namespace Bio

variable {Process : Type} [DecidableEq Process]

def binitLinks (links : Ring.Links BufNode) (buf : Fin nbuf) : Ring.Links BufNode :=
  links.insert none (some buf)

/-- The cache after binit(), on a disk. Buffers are zero before it. -/
def binit (disk : BlockKey → Block) : Bio Process where
  buf := fun _ =>
    { key := ⟨0, 0⟩, refcnt := 0, valid := false
      data := Vector.replicate bsize 0, lock := none }
  links := (List.finRange nbuf).foldl binitLinks { next := fun _ => none, prev := fun _ => none }
  cacheLock := none
  point := fun _ => .idle
  pins := fun _ => 0
  disk := disk
  panic := none
  clock := nbuf
  released := fun buf => buf

def setPoint (bio : Bio Process) (self : Process) (point : BioPoint) : Bio Process :=
  { bio with point := update bio.point self point }

def setBuf (bio : Bio Process) (buf : Fin nbuf) (fields : Buf Process) : Bio Process :=
  { bio with buf := update bio.buf buf fields }

/-- A loop over the list of buffers, in one of its two directions. -/
def search (follow : BufNode → BufNode) (test : Fin nbuf → Bool) : Option (Option BufNode) :=
  Ring.scan follow none (·.any test) (nbuf + 1) (follow none)

inductive Found where
  | cached (buf : Fin nbuf)
  | recycled (buf : Fin nbuf)
  | noBuffers
  | loops

def find (bio : Bio Process) (key : BlockKey) : Found :=
  match search bio.links.next fun buf => (bio.buf buf).key = key with
  | some (some (some buf)) => .cached buf
  | some _ =>
    match search bio.links.prev fun buf => (bio.buf buf).refcnt = 0 with
    | some (some (some buf)) => .recycled buf
    | some _ => .noBuffers
    | none => .loops
  | none => .loops

/-- bget() between acquire() and release(). -/
def bget (bio : Bio Process) (self : Process) (key : BlockKey) : Bio Process :=
  match bio.find key with
  | .cached buf =>
    ({ bio with cacheLock := none }.setBuf buf
      { bio.buf buf with refcnt := (bio.buf buf).refcnt + 1 }).setPoint self (.waiting buf)
  | .recycled buf =>
    ({ bio with cacheLock := none }.setBuf buf
      { bio.buf buf with
          key := key, valid := false, refcnt := 1 }).setPoint self
        (.waiting buf)
  | .noBuffers => { bio with panic := some .bgetNoBuffers }
  | .loops => bio

/-- bread() from the return of bget() on. -/
def read (bio : Bio Process) (self : Process) (buf : Fin nbuf) : Bio Process :=
  if (bio.buf buf).valid then
    bio.setPoint self .idle
  else
    (bio.setBuf buf
      { bio.buf buf with
          data := bio.disk (bio.buf buf).key, valid := true }).setPoint self
        .idle

def bwrite (bio : Bio Process) (self : Process) (buf : Fin nbuf) : Bio Process :=
  if (bio.buf buf).lock ≠ some self then
    { bio with panic := some .bwrite }
  else
    { bio with
        disk := update bio.disk (bio.buf buf).key (bio.buf buf).data }

/-- brelse() up to releasesleep(). -/
def brelse (bio : Bio Process) (self : Process) (buf : Fin nbuf) : Bio Process :=
  if (bio.buf buf).lock ≠ some self then
    { bio with panic := some .brelse }
  else
    (bio.setBuf buf { bio.buf buf with lock := none }).setPoint self (.releasing buf)

def moveToFront (bio : Bio Process) (buf : Fin nbuf) : Bio Process :=
  { bio with
      links := (bio.links.unlink (some buf)).insert none (some buf)
      clock := bio.clock + 1
      released := update bio.released buf bio.clock }

/-- brelse() between acquire() and release(). -/
def drop (bio : Bio Process) (self : Process) (buf : Fin nbuf) : Bio Process :=
  let dropped := ({ bio with cacheLock := none }.setBuf buf
    { bio.buf buf with refcnt := (bio.buf buf).refcnt - 1 }).setPoint self .idle
  if (bio.buf buf).refcnt - 1 = 0 then
    dropped.moveToFront buf
  else
    dropped

def bpin (bio : Bio Process) (self : Process) (buf : Fin nbuf) : Bio Process :=
  ({ bio with
      cacheLock := none
      pins := update bio.pins buf (bio.pins buf + 1) }.setBuf buf
    { bio.buf buf with refcnt := (bio.buf buf).refcnt + 1 }).setPoint self .idle

def bunpin (bio : Bio Process) (self : Process) (buf : Fin nbuf) : Bio Process :=
  ({ bio with
      cacheLock := none
      pins := update bio.pins buf (bio.pins buf - 1) }.setBuf buf
    { bio.buf buf with refcnt := (bio.buf buf).refcnt - 1 }).setPoint self .idle

def At (bio : Bio Process) (self : Process) (point : BioPoint) : Prop :=
  bio.panic = none ∧ bio.point self = point

inductive Step : Bio Process → BioEvent Process → Bio Process → Prop
  | callBread : bio.At self .idle → key.dev ≠ 0 →
      Step bio (.callBread self key) (bio.setPoint self (.wantGet key))
  | acquireGet : bio.At self (.wantGet key) → bio.cacheLock = none → Step bio (.acquireGet self)
        ({ bio with cacheLock := some self }.setPoint self (.getting key))
  | bget : bio.At self (.getting key) → Step bio (.bget self) (bio.bget self key)
  | acquiresleep : bio.At self (.waiting b) → (bio.buf b).lock = none →
      Step bio (.acquiresleep self)
        ((bio.setBuf b { bio.buf b with lock := some self }).setPoint self (.reading b))
  | read : bio.At self (.reading b) → Step bio (.read self) (bio.read self b)
  | change : bio.At self .idle → (bio.buf b).lock = some self → Step bio (.change self b data)
        (bio.setBuf b { bio.buf b with data := data })
  | bwrite : bio.At self .idle → Step bio (.bwrite self b) (bio.bwrite self b)
  | callBrelse : bio.At self .idle → Step bio (.callBrelse self b) (bio.brelse self b)
  | acquireDrop : bio.At self (.releasing b) → bio.cacheLock = none → Step bio (.acquireDrop self)
        ({ bio with cacheLock := some self }.setPoint self (.dropping b))
  | drop : bio.At self (.dropping b) → Step bio (.drop self) (bio.drop self b)
  | callBpin : bio.At self .idle → (bio.buf b).lock = some self → bio.cacheLock = none →
      Step bio (.callBpin self b) ({ bio with cacheLock := some self }.setPoint self (.pinning b))
  | bpin : bio.At self (.pinning b) → Step bio (.bpin self) (bio.bpin self b)
  -- A pin is undone once.
  | callBunpin : bio.At self .idle → 0 < bio.pins b → bio.cacheLock = none →
      Step bio (.callBunpin self b)
        ({ bio with cacheLock := some self }.setPoint self (.unpinning b))
  | bunpin : bio.At self (.unpinning b) → Step bio (.bunpin self) (bio.bunpin self b)

end Bio

end Xv6Lottery
