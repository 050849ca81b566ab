import Xv6Lottery.Param

/-! virtio_disk.c and the device. The device takes its steps whenever it likes;
the driver's steps are those between which the device can see a difference, and
vdisk_lock is part of the state. sleep() gives up the lock and may return at
any time. -/

namespace Xv6Lottery.Virtio

open Function

def num : Nat := 8

instance : NeZero num := ⟨by decide⟩

inductive Addr (Buf : Type) where
  | null
  | op (i : Fin num)
  | data (b : Buf)
  | status (i : Fin num)
  deriving DecidableEq

structure Desc (Buf : Type) where
  addr : Addr Buf
  len : Nat
  flags : UInt16
  next : UInt16
  deriving DecidableEq

def descNext : UInt16 := 1

def descWrite : UInt16 := 2

structure BlkReq where
  type : UInt32
  reserved : UInt32
  sector : UInt64
  deriving DecidableEq

structure Info (Buf : Type) where
  b : Option Buf
  status : UInt8

structure Avail where
  idx : UInt16
  ring : Fin num → UInt16

structure Used where
  idx : UInt16
  ring : Fin num → UInt32

structure Disk (Buf : Type) where
  desc : Fin num → Desc Buf
  avail : Avail
  used : Used
  free : Fin num → Bool
  usedIdx : UInt16
  info : Fin num → Info Buf
  ops : Fin num → BlkReq

structure Request (Buf : Type) where
  b : Buf
  write : Bool
  deriving DecidableEq

structure Chain where
  head : Fin num
  data : Fin num
  status : Fin num
  deriving DecidableEq

namespace Chain

def toList (chain : Chain) : List (Fin num) :=
  [chain.head, chain.data, chain.status]

end Chain

inductive Panic where
  /-- "free_desc 1" -/
  | freeDesc1
  /-- "free_desc 2" -/
  | freeDesc2
  /-- "virtio_disk_intr status" -/
  | intrStatus
  /-- `info[id].b` is null. -/
  | nullBuf
  /-- `id` is not the index of a descriptor. -/
  | badId
  deriving DecidableEq

def slot (counter : UInt16) : Fin num := Fin.ofNat num counter.toNat

namespace Disk

variable {Buf : Type} (disk : Disk Buf)

def allocDesc : Option (Fin num × Disk Buf) :=
  ((List.finRange num).find? fun i => disk.free i).map fun i =>
    (i, { disk with free := update disk.free i false })

def freeDesc (i : Nat) : Except Panic (Disk Buf) :=
  if small : i < num then
    if disk.free ⟨i, small⟩ then .error .freeDesc2
    else .ok
      { disk with
        desc := update disk.desc ⟨i, small⟩ ⟨.null, 0, 0, 0⟩
        free := update disk.free ⟨i, small⟩ true }
  else .error .freeDesc1

/-- After `NUM` rounds all descriptors are free, and the next round panics. -/
def freeChain (disk : Disk Buf) : Nat → Nat → Except Panic (Disk Buf)
  | 0, _ => .error .freeDesc2
  | rounds + 1, i =>
    if small : i < num then
      let desc := disk.desc ⟨i, small⟩
      match disk.freeDesc i with
      | .error why => .error why
      | .ok freed =>
        if desc.flags &&& descNext = 0 then .ok freed
        else freed.freeChain rounds desc.next.toNat
    else .error .freeDesc1

def alloc3Desc : Except Panic (Option Chain × Disk Buf) :=
  match disk.allocDesc with
  | none => .ok (none, disk)
  | some (head, one) =>
    match one.allocDesc with
    | none => do
        let freed ← one.freeDesc head
        return (none, freed)
    | some (data, two) =>
      match two.allocDesc with
      | none => do
          let once ← two.freeDesc head
          let twice ← once.freeDesc data
          return (none, twice)
      | some (status, three) => .ok (some ⟨head, data, status⟩, three)

/-- `VIRTIO_BLK_T_OUT` or `VIRTIO_BLK_T_IN`, and the sector. -/
def blkReq (blockno : Buf → UInt32) (req : Request Buf) : BlkReq :=
  ⟨if req.write then 1 else 0, 0, (blockno req.b * UInt32.ofNat (bsize / 512)).toUInt64⟩

/-- The three descriptors, up to the entry in the avail ring. -/
def format (blockno : Buf → UInt32) (req : Request Buf) (chain : Chain) : Disk Buf :=
  { disk with
    ops := update disk.ops chain.head (blkReq blockno req)
    desc := update (update (update disk.desc chain.head
          ⟨.op chain.head, 16, descNext, chain.data.val.toUInt16⟩) chain.data ⟨.data req.b, bsize,
          (if req.write then 0 else descWrite) ||| descNext, chain.status.val.toUInt16⟩)
      chain.status ⟨.status chain.head, 1, descWrite, 0⟩
    info := update disk.info chain.head ⟨some req.b, 0xff⟩
    avail := { disk.avail with
      ring := update disk.avail.ring (slot disk.avail.idx) chain.head.val.toUInt16 } }

def follow (head : Nat) : Option (Desc Buf × Desc Buf × Desc Buf) :=
  if first : head < num then
    let one := disk.desc ⟨head, first⟩
    if second : one.next.toNat < num then
      let two := disk.desc ⟨one.next.toNat, second⟩
      if third : two.next.toNat < num then
        some (one, two, disk.desc ⟨two.next.toNat, third⟩)
      else none
    else none
  else none

end Disk

/-- A request as the device reads it. -/
structure Served (Buf : Type) where
  op : BlkReq
  b : Buf
  /-- The device writes the data. -/
  writes : Bool
  deriving DecidableEq

def Disk.request {Buf : Type} (disk : Disk Buf) (head : Nat) : Option (Served Buf) :=
  match disk.follow head with
  | some (⟨.op i, _, _, _⟩, ⟨.data b, _, flags, _⟩, _) =>
    some ⟨disk.ops i, b, flags &&& descWrite ≠ 0⟩
  | _ => none

/-- The device writes status 0 and appends the head to the used ring. -/
def Disk.complete {Buf : Type} (disk : Disk Buf) (head : UInt16) : Disk Buf :=
  { disk with
    info := match disk.follow head.toNat with
      | some (_, _, ⟨.status i, _, _, _⟩) =>
        update disk.info i { disk.info i with status := 0 }
      | _ => disk.info
    used :=
      { idx := disk.used.idx + 1
        ring := update disk.used.ring (slot disk.used.idx) head.toUInt32 } }

inductive Point (Buf : Type) where
  | home
  | entering (req : Request Buf)
  | allocating (req : Request Buf)
  /-- Sleeps on &disk.free[0]. -/
  | starved (req : Request Buf)
  | formatting (req : Request Buf) (chain : Chain)
  | publishing (req : Request Buf) (chain : Chain)
  | waiting (req : Request Buf) (chain : Chain) (ticket : Nat)
  /-- Sleeps on b. -/
  | asleep (req : Request Buf) (chain : Chain) (ticket : Nat)
  | finishing (req : Request Buf) (chain : Chain) (ticket : Nat)
  | leaving (req : Request Buf) (ticket : Nat)
  | intrEntering
  | intrTesting
  | intrTaking
  | intrLeaving
  | panic (why : Panic)
  deriving DecidableEq

/-- A request that the device has completed; the tickets number the requests
in the order in which they came into the avail ring. -/
structure Entry (Buf : Type) where
  ticket : Nat
  head : UInt16
  request : Option (Served Buf)

structure State (Agent Buf : Type) where
  lock : Option Agent
  point : Agent → Point Buf
  disk : Disk Buf
  /-- `b->disk` -/
  busy : Buf → Bool
  /-- The device has taken the avail ring up to here. -/
  seen : UInt16
  /-- The requests that the device works on. -/
  working : List (UInt16 × Nat)
  -- What has happened: the heads given to the device, how many it has taken,
  -- what it has completed, and how much of that virtio_disk_intr() has seen.
  issued : List UInt16
  taken : Nat
  log : List (Entry Buf)
  consumed : Nat

inductive Event (Agent Buf : Type) where
  | call (a : Agent) (req : Request Buf)
  | intr (a : Agent)
  | go (a : Agent)
  /-- The device takes an entry of the avail ring. -/
  | take
  /-- The device completes one of its requests. -/
  | complete (k : Nat)

def Point.req {Buf : Type} : Point Buf → Option (Request Buf)
  | .entering req | .allocating req | .starved req | .formatting req _
  | .publishing req _ | .waiting req _ _ | .asleep req _ _
  | .finishing req _ _ | .leaving req _ => some req
  | _ => none

namespace State

variable {Agent Buf : Type} [DecidableEq Agent]

def set (state : State Agent Buf) (a : Agent) (point : Point Buf) : State Agent Buf :=
  { state with point := update state.point a point }

def acquire (state : State Agent Buf) (a : Agent) (point : Point Buf) : Option (State Agent Buf) :=
  if state.lock.isNone then
    some ({ state with lock := some a }.set a point)
  else none

def release (state : State Agent Buf) (a : Agent) (point : Point Buf) : State Agent Buf :=
  { state with lock := none }.set a point

variable [DecidableEq Buf] (blockno : Buf → UInt32)

def intrStep (state : State Agent Buf) (a : Agent) : State Agent Buf :=
  let id := (state.disk.used.ring (slot state.disk.usedIdx)).toNat
  if small : id < num then
    if (state.disk.info ⟨id, small⟩).status ≠ 0 then
      state.set a (.panic .intrStatus)
    else
      match (state.disk.info ⟨id, small⟩).b with
      | none => state.set a (.panic .nullBuf)
      | some b =>
        { state with
          busy := update state.busy b false
          disk := { state.disk with usedIdx := state.disk.usedIdx + 1 }
          consumed := state.consumed + 1 }.set a .intrTesting
  else state.set a (.panic .badId)

def go (state : State Agent Buf) (a : Agent) : Option (State Agent Buf) :=
  match state.point a with
  | .home | .panic _ => none
  | .entering req | .starved req => state.acquire a (.allocating req)
  | .allocating req =>
    match state.disk.alloc3Desc with
    | .error why => some (state.set a (.panic why))
    | .ok (none, disk) =>
      some ({ state with disk := disk }.release a (.starved req))
    | .ok (some chain, disk) =>
      some ({ state with disk := disk }.set a (.formatting req chain))
  | .formatting req chain =>
    some ({ state with
      disk := state.disk.format blockno req chain
      busy := update state.busy req.b true }.set a (.publishing req chain))
  | .publishing req chain =>
    some ({ state with
      disk := { state.disk with
        avail := { state.disk.avail with
          idx := state.disk.avail.idx + 1 } }
      issued := state.issued ++ [chain.head.val.toUInt16] }.set a
        (.waiting req chain state.issued.length))
  | .waiting req chain ticket =>
    if state.busy req.b then
      some (state.release a (.asleep req chain ticket))
    else some (state.set a (.finishing req chain ticket))
  | .asleep req chain ticket => state.acquire a (.waiting req chain ticket)
  | .finishing req chain ticket =>
    let cleared := { state.disk with
      info := update state.disk.info chain.head { state.disk.info chain.head with b := none } }
    match cleared.freeChain (num + 1) chain.head with
    | .error why => some (state.set a (.panic why))
    | .ok disk =>
      some ({ state with disk := disk }.set a (.leaving req ticket))
  | .leaving _ _ | .intrLeaving => some (state.release a .home)
  | .intrEntering => state.acquire a .intrTesting
  | .intrTesting =>
    some (state.set a (if state.disk.usedIdx ≠ state.disk.used.idx then .intrTaking
        else .intrLeaving))
  | .intrTaking => some (state.intrStep a)

inductive Step : State Agent Buf → Event Agent Buf → State Agent Buf → Prop
  /-- The caller has the sleep lock of its buffer. -/
  | call {state : State Agent Buf} {a : Agent} {req : Request Buf} : state.point a = .home →
      (∀ other held, (state.point other).req = some held → held.b ≠ req.b) →
      Step state (.call a req) (state.set a (.entering req))
  | intr {state : State Agent Buf} {a : Agent} : state.point a = .home →
      Step state (.intr a) (state.set a .intrEntering)
  | go {state after : State Agent Buf} {a : Agent} :
      state.go blockno a = some after → Step state (.go a) after
  | take {state : State Agent Buf} : state.seen ≠ state.disk.avail.idx → Step state .take
        { state with
          seen := state.seen + 1
          working := state.working ++ [(state.disk.avail.ring (slot state.seen), state.taken)]
          taken := state.taken + 1 }
  | complete {state : State Agent Buf} {head : UInt16}
      {before after : List (UInt16 × Nat)} {ticket : Nat} :
      state.working = before ++ (head, ticket) :: after → Step state (.complete before.length)
        { state with
          disk := state.disk.complete head
          working := before ++ after
          log := state.log ++ [⟨ticket, head, state.disk.request head.toNat⟩] }

structure Boot (state : State Agent Buf) : Prop where
  lock : state.lock = none
  point : ∀ a, state.point a = .home
  free : ∀ i, state.disk.free i = true
  avail : state.disk.avail.idx = 0
  used : state.disk.used.idx = 0
  usedIdx : state.disk.usedIdx = 0
  seen : state.seen = 0
  working : state.working = []
  issued : state.issued = []
  taken : state.taken = 0
  log : state.log = []
  consumed : state.consumed = 0

end State

end Xv6Lottery.Virtio
