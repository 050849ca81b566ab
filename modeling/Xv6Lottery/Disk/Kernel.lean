import Xv6Lottery.Disk.Call

/-! What the operations do to the buffer cache, the disk and the log. -/

namespace Xv6Lottery.Disk

open Concurrent Function

/-- Between two operations no buffer is locked. -/
structure Kernel (Agent : Type) where
  /-- The valid buffers. -/
  cache : Nat → Option Block
  disk : Nat → Block
  /-- The blocks that log_write() has pinned in the cache. -/
  pinned : Nat → Bool
  /-- The blocks whose buffer a failed either_copyin() has changed since it
  was last read or logged. -/
  spoilt : Nat → Bool
  lh : LogHeader
  outstanding : Nat
  committing : Bool
  mem : Mem Agent

namespace Kernel

variable {Agent : Type} (sb : Superblock) (kernel : Kernel Agent)

def view (b : Nat) : Block := (kernel.cache b).getD (kernel.disk b)

def setBuf (b : Nat) (data : Block) : Kernel Agent :=
  { kernel with cache := update kernel.cache b (some data) }

def bwrite (b : Nat) (data : Block) : Kernel Agent :=
  { kernel with
      cache := update kernel.cache b (some data)
      disk := update kernel.disk b data }

def logWrite {result : Type} (b : Nat) (data : Block) (answer : result) :
    Concurrent.Effect (Kernel Agent) Failure result :=
  if logSize ≤ kernel.lh.length ∨ sb.nlog - 1 ≤ kernel.lh.length then
    .stop .logTooBig
  else if kernel.outstanding < 1 then
    .stop .logOutside
  else
    .done answer { kernel.setBuf b data with
      lh := if b ∈ kernel.lh then kernel.lh else kernel.lh ++ [b]
      pinned := update kernel.pinned b true
      spoilt := update kernel.spoilt b false }

def copyin (b offset : Nat) (src : Source) (start count : Nat) :
    Concurrent.Effect (Kernel Agent) Failure Bool :=
  let bytes := src.copied start count
  let data := (kernel.view b).setBytes offset bytes
  if bytes.length = count then
    kernel.logWrite sb b data true
  else
    .done false { kernel.setBuf b data with
      spoilt := if bytes = [] ∨ b ∈ kernel.lh then kernel.spoilt
        else update kernel.spoilt b true }

def home (tail : Nat) : Nat := kernel.lh.getD tail 0

def writeLog (tail : Nat) : Kernel Agent :=
  let data := kernel.view (kernel.home tail)
  (kernel.setBuf (kernel.home tail) data).bwrite (sb.logstart + tail + 1) data

def writeHead : Kernel Agent :=
  kernel.bwrite sb.logstart (kernel.lh.store (kernel.view sb.logstart))

def install (tail : Nat) : Kernel Agent :=
  let data := kernel.view (sb.logstart + tail + 1)
  { (kernel.setBuf (sb.logstart + tail + 1) data).bwrite (kernel.home tail) data with
    pinned := update kernel.pinned (kernel.home tail) false }

/-- A pinned buffer has a reference, so that bget() does not take it. -/
def recycle (b : Nat) : Kernel Agent :=
  if kernel.pinned b then
    kernel
  else
    { kernel with
        cache := update kernel.cache b none
        spoilt := update kernel.spoilt b false }

def beginOp : Concurrent.Effect (Kernel Agent) Failure Unit :=
  if kernel.committing ∨ logSize < kernel.lh.length + (kernel.outstanding + 1) * maxOpBlocks then
    .wait
  else
    .done () { kernel with outstanding := kernel.outstanding + 1 }

/-- end_op() up to its first release(). -/
def endOp : Concurrent.Effect (Kernel Agent) Failure Bool :=
  if kernel.committing then
    .stop .logCommitting
  else if kernel.outstanding - 1 = 0 then
    .done true { kernel with
      outstanding := kernel.outstanding - 1
      committing := true }
  else
    .done false { kernel with outstanding := kernel.outstanding - 1 }

end Kernel

variable {Agent : Type}

def sem (sb : Superblock) (result : Type) (self : Agent) : Op Agent result → Kernel Agent →
      Concurrent.Effect (Kernel Agent) Failure result
  | .block _ b use, kernel =>
    match use (kernel.view b) with
    | (answer, data, true) => kernel.logWrite sb b data answer
    | (answer, data, false) => .done answer (kernel.setBuf b data)
  | .copyin b offset src start count, kernel =>
    kernel.copyin sb b offset src start count
  | .mem use, kernel =>
    match use self kernel.mem with
    | .wait => .wait
    | .stop reason => .stop reason
    | .done answer mem => .done answer { kernel with mem := mem }
  | .beginOp, kernel => kernel.beginOp
  | .endOp, kernel => kernel.endOp
  | .logLength, kernel => .done kernel.lh.length kernel
  | .writeLog tail, kernel => .done () (kernel.writeLog sb tail)
  | .writeHead, kernel => .done () (kernel.writeHead sb)
  | .install tail, kernel => .done () (kernel.install sb tail)
  | .clearLog, kernel => .done () { kernel with lh := [] }
  | .finishOp, kernel => .done () { kernel with committing := false }
  | .recycle b, kernel => .done () (kernel.recycle b)
  | .panic reason, _ => .stop reason

/-- The system calls on files, by processes that run at the same time. -/
def calls (sb : Superblock) [DecidableEq Agent] :
    System (Op Agent) (Kernel Agent) Failure Agent Call where
  sem := sem sb
  body := Call.body sb

end Xv6Lottery.Disk
