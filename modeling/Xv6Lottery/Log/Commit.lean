import Xv6Lottery.Lib.DiskProgram
import Xv6Lottery.Lib.Transition
import Xv6Lottery.Log.Header

/-! The redo log of `log.c`: the programs that move blocks between cache, log
and home, and the machine that may lose its memory between any two disk writes.
-/

namespace Xv6Lottery

open DiskProgram

/-- The fields of `struct log` that `initlog` copies from the superblock.  The
log area is the header block `start` and the `size - 1` blocks after it. -/
structure Log where
  start : Nat
  size : Nat

abbrev Disk := Nat → Block

abbrev BlockProg := Prog Nat Block

namespace Log

def InArea (log : Log) (block : Nat) : Prop :=
  log.start ≤ block ∧ block ≤ log.start + (log.size - 1)

instance (log : Log) (block : Nat) : Decidable (log.InArea block) :=
  inferInstanceAs (Decidable (_ ∧ _))

def home (header : LogHeader) (tail : Nat) : Nat := header.getD tail 0

/-- Copy modified blocks from cache to log. -/
def writeLog (log : Log) (header : LogHeader) : BlockProg Unit :=
  Prog.upTo header.length fun tail => do
    let _to ← Prog.bread (log.start + tail + 1)
    let «from» ← Prog.bread (home header tail)
    Prog.bwrite (log.start + tail + 1) «from»

/-- Copy committed blocks from log to their home location. -/
def installTrans (log : Log) (header : LogHeader) (recovering : Bool) : BlockProg Unit :=
  Prog.upTo header.length fun tail => do
    let lbuf ← Prog.bread (log.start + tail + 1)
    let _dbuf ← Prog.bread (home header tail)
    Prog.bwrite (home header tail) lbuf
    if recovering then pure () else Prog.bunpin (home header tail)

/-- Read the log header from disk into the in-memory log header. -/
def readHead (log : Log) : BlockProg LogHeader := do
  let buf ← Prog.bread log.start
  return LogHeader.load buf

/-- Write the in-memory log header to disk. -/
def writeHead (log : Log) (header : LogHeader) : BlockProg Unit := do
  let buf ← Prog.bread log.start
  Prog.bwrite log.start (header.store buf)

def recoverFromLog (log : Log) : BlockProg Unit := do
  let header ← log.readHead
  log.installTrans header true
  log.writeHead []

def commit (log : Log) (header : LogHeader) : BlockProg Unit :=
  if 0 < header.length then do
    log.writeLog header
    log.writeHead header
    log.installTrans header false
    log.writeHead []
  else
    pure ()

/-- The guard of `log_write`, tested before the search for the block. -/
def TooBig (log : Log) (header : LogHeader) : Prop :=
  logSize ≤ header.length ∨ log.size ≤ header.length + 1

instance (log : Log) (header : LogHeader) : Decidable (log.TooBig header) :=
  inferInstanceAs (Decidable (_ ∨ _))

/-- The header after `log_write`: a block already in it is absorbed. -/
def absorb (header : LogHeader) (block : Nat) : LogHeader :=
  if block ∈ header then header else header ++ [block]

end Log

inductive LogMode where
  /-- `recover_from_log` is running. -/
  | recovering (program : BlockProg Unit)
  /-- A transaction is being collected; `log.lh` is the header. -/
  | collecting (header : LogHeader)
  /-- `commit` is running. -/
  | committing (program : BlockProg Unit)
  /-- `log_write` found no room. -/
  | panicked

structure LogSystem where
  machine : Machine Nat Block
  mode : LogMode

inductive LogEvent where
  /-- A caller changed a buffer and passed it to `log_write`. -/
  | update (block : Nat) (contents : Block)
  /-- One block reached the disk. -/
  | write (block : Nat) (contents : Block)
  | crash
  | silent

namespace LogEvent

def ofLabel : Option (Nat × Block) → LogEvent
  | none => .silent
  | some (block, contents) => .write block contents

end LogEvent

namespace LogSystem

def boot (log : Log) (disk : Disk) : LogSystem where
  machine := .powerOn disk
  mode := .recovering log.recoverFromLog

/-- `bpin` happens only when the block enters the header. -/
def pinNew (machine : Machine Nat Block) (header : LogHeader) (block : Nat) : Machine Nat Block :=
  if block ∈ header then machine else machine.pin block

inductive Step (log : Log) : LogSystem → LogEvent → LogSystem → Prop
  | recover : Prog.Step (program, device) label (program', device') →
      Step log ⟨device, .recovering program⟩ (.ofLabel label) ⟨device', .recovering program'⟩
  | recovered : Step log ⟨device, .recovering (.ret ())⟩ .silent ⟨device, .collecting []⟩
  | logWrite (outside : ¬ log.InArea block) (number : block < 2 ^ 32) (room : ¬ log.TooBig header) :
      Step log ⟨device, .collecting header⟩ (.update block contents)
        ⟨pinNew (device.modify block contents) header block, .collecting (Log.absorb header block)⟩
  | logWriteTooBig (full : log.TooBig header) :
      Step log ⟨device, .collecting header⟩ .silent ⟨device, .panicked⟩
  | endOp : Step log ⟨device, .collecting header⟩ .silent ⟨device, .committing (log.commit header)⟩
  | commit : Prog.Step (program, device) label (program', device') →
      Step log ⟨device, .committing program⟩ (.ofLabel label) ⟨device', .committing program'⟩
  | committed : Step log ⟨device, .committing (.ret ())⟩ .silent ⟨device, .collecting []⟩
  /-- `bget` recycles an unpinned buffer, in whatever code runs then. -/
  | evict (unpinned : device.pins block = 0) :
      Step log ⟨device, activity⟩ .silent ⟨device.evict block, activity⟩
  | crash : Step log ⟨device, activity⟩ .crash (boot log device.disk)

end LogSystem

/-- One transaction: the updates passed to `log_write`, oldest first. -/
abbrev Transaction := List (Nat × Block)

namespace Transaction

def apply (disk : Disk) (transaction : Transaction) : Disk :=
  transaction.foldl (fun disk update => Function.update disk update.1 update.2) disk

end Transaction

/-- What an observer of the disk knows: the transactions whose first header
write reached it, oldest first, and the updates of the one still being
collected. -/
structure Ledger where
  committed : List Transaction
  pending : Transaction

namespace Ledger

def empty : Ledger := ⟨[], []⟩

/-- A header write with a positive count is the commit point. -/
def observeWrite (log : Log) (ledger : Ledger) (block : Nat) (contents : Block) : Ledger :=
  if block = log.start ∧ 0 < LogHeader.count contents then
    ⟨ledger.committed ++ [ledger.pending], []⟩
  else
    ledger

def observe (log : Log) (ledger : Ledger) : LogEvent → Ledger
  | .update block contents =>
    { ledger with pending := ledger.pending ++ [(block, contents)] }
  | .write block contents => ledger.observeWrite log block contents
  | .crash => { ledger with pending := [] }
  | .silent => ledger

def ofEvents (log : Log) (events : List LogEvent) : Ledger :=
  events.foldl (observe log) empty

/-- The initial disk with the committed transactions applied in order. -/
def durable (initial : Disk) (ledger : Ledger) : Disk :=
  ledger.committed.foldl Transaction.apply initial

end Ledger

end Xv6Lottery
