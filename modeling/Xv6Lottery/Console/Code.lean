import Xv6Lottery.Param

/-! console.c: the input buffer, the interrupt handler and consoleread(). -/

namespace Xv6Lottery.Console

open Function

def inputBufSize : Nat := 128

instance : NeZero inputBufSize := ⟨by decide⟩

def backspace : Int := 0x100

def control (x : Char) : Int := x.toNat - '@'.toNat

def newline : UInt8 := 10

def eof : UInt8 := 4

structure Cons where
  buf : Fin inputBufSize → UInt8
  r : UInt32
  w : UInt32
  e : UInt32
  /-- The calls of consputc(). -/
  echo : List Int

def cell (index : UInt32) : Fin inputBufSize :=
  Fin.ofNat inputBufSize index.toNat

namespace Cons

def erase (cons : Cons) : Cons :=
  { cons with e := cons.e - 1, echo := cons.echo ++ [backspace] }

/-- The loop of `C('U')`. -/
def killLine : Nat → Cons → Cons
  | 0, cons => cons
  | rounds + 1, cons =>
    if cons.e ≠ cons.w ∧ cons.buf (cell (cons.e - 1)) ≠ newline then
      killLine rounds cons.erase
    else cons

def store (cons : Cons) (c : Int) : Cons :=
  { cons with
    buf := update cons.buf (cell cons.e) (UInt8.ofInt c)
    e := cons.e + 1
    echo := cons.echo ++ [c] }

end Cons

/-- What consoleintr() does with a character that it does not drop;
`commit` is `cons.w = cons.e`. -/
inductive Key where
  | char (c : UInt8)
  | commit
  | erase
  | kill
  deriving DecidableEq

structure Shared where
  cons : Cons
  /-- The input that has been accepted. -/
  keys : List Key
  /-- The bytes that consoleread() has taken, in order. -/
  taken : List UInt8

/-- uartintr() calls this with a character. -/
def consoleintr (c : Int) (shared : Shared) : Shared :=
  let cons := shared.cons
  if c = control 'P' then
    shared
  else if c = control 'U' then
    { shared with
      -- the loop ends when it meets cons.w
      cons := cons.killLine (cons.e - cons.w).toNat
      keys := shared.keys ++ [.kill] }
  else if c = control 'H' ∨ c = 0x7f then
    { shared with
      cons := if cons.e ≠ cons.w then cons.erase else cons
      keys := shared.keys ++ [.erase] }
  else if c ≠ 0 ∧ cons.e - cons.r < UInt32.ofNat inputBufSize then
    let c := if c = '\r'.toNat then ('\n'.toNat : Int) else c
    let cons := cons.store c
    let keys := shared.keys ++ [.char (UInt8.ofInt c)]
    if c = '\n'.toNat ∨ c = control 'D' ∨ cons.e - cons.r = UInt32.ofNat inputBufSize then
      { shared with
        cons := { cons with w := cons.e }
        keys := keys ++ [.commit] }
    else
      { shared with cons := cons, keys := keys }
  else
    shared

structure Reader where
  /-- Where either_copyout() succeeds from `dst` on. -/
  sink : Nat → Bool
  target : UInt32
  n : Int
  /-- The bytes that the call has taken out of the buffer. -/
  taken : List UInt8
  /-- The bytes that it has stored from `dst` on. -/
  stored : List UInt8

namespace Reader

def enter (n : Int) (sink : Nat → Bool) : Reader :=
  { sink := sink, target := UInt32.ofInt n, n := n, taken := []
    stored := [] }

def take (reader : Reader) (c : UInt8) : Reader :=
  { reader with taken := reader.taken ++ [c] }

def copied (reader : Reader) (c : UInt8) : Reader :=
  { reader.take c with n := reader.n - 1, stored := reader.stored ++ [c] }

def result (reader : Reader) : Int :=
  (reader.target - UInt32.ofInt reader.n).toBitVec.toInt

end Reader

inductive Status where
  | sleeps
  | returns (result : Int)
  deriving DecidableEq

def Shared.advance (shared : Shared) (c : UInt8) : Shared :=
  { shared with
    cons := { shared.cons with r := shared.cons.r + 1 }
    taken := shared.taken ++ [c] }

/-- The loop of consoleread() until it returns or sleeps. The rounds are `n`. -/
def readLoop (killed : Bool) : Nat → Reader → Shared → Shared × Reader × Status
  | 0, reader, shared => (shared, reader, .returns reader.result)
  | rounds + 1, reader, shared =>
    if shared.cons.r = shared.cons.w then
      (shared, reader, if killed then .returns (-1) else .sleeps)
    else
      let c := shared.cons.buf (cell shared.cons.r)
      if c = eof then
        if UInt32.ofInt reader.n < reader.target then
          -- cons.r++ and cons.r--
          (shared, reader, .returns reader.result)
        else
          (shared.advance c, reader.take c, .returns reader.result)
      else if reader.sink reader.stored.length then
        let reader := reader.copied c
        if c = newline then
          (shared.advance c, reader, .returns reader.result)
        else
          readLoop killed rounds reader (shared.advance c)
      else
        (shared.advance c, reader.take c, .returns reader.result)

/-- consoleread() from the time on when it gets the lock. -/
def Reader.go (reader : Reader) (killed : Bool) (shared : Shared) : Shared × Reader × Status :=
  readLoop killed reader.n.toNat reader shared

/-! Interrupts and calls of consoleread() by any processes. -/

structure State (Process : Type) where
  shared : Shared
  /-- The calls that wait in sleep(). -/
  waiting : Process → Option Reader
  /-- The calls that have returned, with their results, in order. -/
  reads : List (Reader × Int)

def IsInt (n : Int) : Prop := -2 ^ 31 ≤ n ∧ n < 2 ^ 31

/-- `killed` is what killed() answers when the buffer is empty. -/
inductive Event (Process : Type) where
  | interrupt (c : Int)
  | read (pid : Process) (n : Int) (sink : Nat → Bool) (killed : Bool)
  /-- A process returns from sleep(). -/
  | resume (pid : Process) (killed : Bool)

variable {Process : Type} [DecidableEq Process]

def State.settle (state : State Process) (pid : Process) : Shared × Reader × Status → State Process
  | (shared, reader, .sleeps) =>
    { state with
      shared := shared
      waiting := update state.waiting pid (some reader) }
  | (shared, reader, .returns result) =>
    { shared := shared
      waiting := update state.waiting pid none
      reads := state.reads ++ [(reader, result)] }

/-- cons.lock is held from acquire() or the return from sleep() to the next
sleep() or release(). -/
inductive Step : State Process → Event Process → State Process → Prop
  | interrupt : Step state (.interrupt c) { state with shared := consoleintr c state.shared }
  | read : state.waiting pid = none → IsInt n → Step state (.read pid n sink killed)
        (state.settle pid ((Reader.enter n sink).go killed state.shared))
  | resume : state.waiting pid = some reader → Step state (.resume pid killed)
        (state.settle pid (reader.go killed state.shared))

end Xv6Lottery.Console
