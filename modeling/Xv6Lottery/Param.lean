import Mathlib

/-! The constants of `param.h` and `fs.h`. -/

namespace Xv6Lottery

/-! The processes and CPUs of concrete runs have numbers below these. -/

instance neZeroOne : NeZero 1 := ⟨by decide⟩

instance neZeroTwo : NeZero 2 := ⟨by decide⟩

instance neZeroThree : NeZero 3 := ⟨by decide⟩

def nproc : Nat := 64

def maxOpBlocks : Nat := 10

def logSize : Nat := maxOpBlocks * 3

def nbuf : Nat := maxOpBlocks * 3

def bsize : Nat := 1024

def nofile : Nat := 16

def nfile : Nat := 100

def ninode : Nat := 50

def ndev : Nat := 10

def maxpath : Nat := 128

def rootino : Nat := 1

def maxfile : Nat := 12 + bsize / 4

def dirsiz : Nat := 14

instance : NeZero ninode := ⟨Nat.succ_ne_zero _⟩

instance : NeZero nfile := ⟨Nat.succ_ne_zero _⟩

instance : NeZero nofile := ⟨Nat.succ_ne_zero _⟩

end Xv6Lottery
