import Xv6Lottery.Disk.Format

/-! mkfs.c: the image of a file system, written on a host of the kernel's byte
order: xshort() and xint() do nothing. -/

namespace Xv6Lottery

def fssize : Nat := 2000

namespace Disk

namespace Mkfs

def ninodes : Nat := 200

def nbitmap : Nat := fssize / bpb + 1

def ninodeblocks : Nat := ninodes / ipb + 1

def nlog : Nat := logSize

/-- Blocks before the data: boot, superblock, log, inodes and bitmap. -/
def nmeta : Nat := 2 + nlog + ninodeblocks + nbitmap

def nblocks : Nat := fssize - nmeta

def sb : Superblock where
  size := fssize
  nblocks := nblocks
  ninodes := ninodes
  nlog := nlog
  logstart := 2
  inodestart := 2 + nlog
  bmapstart := 2 + nlog + ninodeblocks

def fsmagic : Nat := 0x10203040

structure State where
  image : Nat → Block
  /-- The blocks that the file has. -/
  length : Nat
  freeinode : Nat
  freeblock : Nat

namespace State

def wsect (state : State) (sec : Nat) (buf : Block) : State :=
  { state with
      image := Function.update state.image sec buf
      length := max state.length (sec + 1) }

/-- read() gets no block beyond the end of the file, and mkfs dies. -/
def rsect (state : State) (sec : Nat) : Option Block :=
  if sec < state.length then some (state.image sec) else none

def winode (state : State) (inum : Nat) (ip : Inode) : Option State := do
  let buf ← state.rsect (sb.iblock inum)
  some (state.wsect (sb.iblock inum) (Inode.store buf (inum % ipb) ip))

def rinode (state : State) (inum : Nat) : Option Inode := do
  let buf ← state.rsect (sb.iblock inum)
  some (Inode.load buf (inum % ipb))

def ialloc (state : State) (type : BitVec 16) : Option (Nat × State) := do
  let inum := state.freeinode
  let state ← { state with freeinode := inum + 1 }.winode inum
    { Inode.cleared type with nlink := 1 }
  some (inum, state)

def bitmap (used : Nat) : Block :=
  (List.range used).foldl Block.setBit Block.zero

def balloc (state : State) (used : Nat) : Option State :=
  if used < bpb then some (state.wsect sb.bmapstart (bitmap used)) else none

/-! iappend(). -/

def direct (state : State) (din : Inode) (i : Fin (ndirect + 1)) : State × Inode :=
  if din.addrs i = 0 then
    ({ state with freeblock := state.freeblock + 1 },
      { din with addrs := Function.update din.addrs i state.freeblock })
  else
    (state, din)

def indirect (state : State) (table i : Nat) : Option (State × Nat) := do
  let indirect ← state.rsect table
  if indirect.word (4 * i) = 0 then
    let x := state.freeblock
    some ({ state with freeblock := x + 1 }.wsect table (indirect.setWord (4 * i) x), x)
  else
    some (state, indirect.word (4 * i))

def fileBlock (state : State) (din : Inode) (fbn : Nat) : Option (State × Inode × Nat) :=
  if small : fbn < ndirect then
    let i : Fin (ndirect + 1) := ⟨fbn, Nat.lt_succ_of_lt small⟩
    let (state, din) := state.direct din i
    some (state, din, din.addrs i)
  else do
    let (state, din) := state.direct din (Fin.last ndirect)
    let (state, x) ← state.indirect (din.addrs (Fin.last ndirect)) (fbn - ndirect)
    some (state, din, x)

/-- A round of the loop copies some bytes, so that no more than `n` rounds are
made. -/
def iappendLoop : Nat → State → Inode → Nat → List UInt8 → Option (State × Inode × Nat)
  | 0, state, din, off, _ => some (state, din, off)
  | rounds + 1, state, din, off, p =>
    if p = [] then
      some (state, din, off)
    else
      let fbn := off / bsize
      if fbn < maxfile then do
        let (state, din, x) ← state.fileBlock din fbn
        let n1 := min p.length ((fbn + 1) * bsize - off)
        let buf ← state.rsect x
        iappendLoop rounds (state.wsect x (buf.setBytes (off - fbn * bsize) (p.take n1)))
          din (off + n1) (p.drop n1)
      else
        none

def iappend (state : State) (inum : Nat) (p : List UInt8) : Option State := do
  let din ← state.rinode inum
  let (state, din, off) ← iappendLoop p.length state din din.size p
  state.winode inum { din with size := off }

end State

/-! main(). -/

def superBuf : Block :=
  Block.zero.setWords 0 [fsmagic, sb.size, sb.nblocks, sb.ninodes, sb.nlog,
    sb.logstart, sb.inodestart, sb.bmapstart]

def opened : State where
  image := fun _ => Block.zero
  length := 0
  freeinode := 1
  freeblock := nmeta

/-- All blocks are zeroed, then the superblock is written. -/
def blank : State :=
  ((List.range fssize).foldl (fun state i => state.wsect i Block.zero) opened).wsect 1 superBuf

end Mkfs

end Disk

end Xv6Lottery
