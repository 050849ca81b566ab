import Xv6Lottery.Param

/-! Physical memory, kalloc.c and the arithmetic of `riscv.h`. -/

namespace Xv6Lottery.Vm

def pgsize : Nat := 4096

instance neZeroEntries : NeZero 512 := ⟨by decide⟩

def maxva : Nat := 2 ^ 38

def phystop : Nat := 0x80000000 + 128 * 1024 * 1024

structure Page where
  addr : UInt64
  aligned : addr.toNat % pgsize = 0
  deriving DecidableEq

def pgRoundDown (a : UInt64) : UInt64 := a &&& ~~~4095

def pgRoundUp (a : UInt64) : UInt64 := (a + 4096 - 1) &&& ~~~4095

def pteV : UInt64 := 1
def pteR : UInt64 := 2
def pteW : UInt64 := 4
def pteX : UInt64 := 8
def pteU : UInt64 := 16

def pa2pte (pa : UInt64) : UInt64 := (pa >>> 12) <<< 10

theorem shift_aligned (pte : UInt64) : ((pte >>> 10) <<< 12).toNat % pgsize = 0 := by
  rw [UInt64.toNat_shiftLeft]
  change _ <<< 12 % 2 ^ 64 % 2 ^ 12 = 0
  rw [Nat.shiftLeft_eq, Nat.mod_mod_of_dvd _ (by decide)]
  exact Nat.mul_mod_left ..

def pte2pa (pte : UInt64) : Page := ⟨(pte >>> 10) <<< 12, shift_aligned pte⟩

def pteFlags (pte : UInt64) : UInt64 := pte &&& 0x3FF

def px (level : Nat) (va : UInt64) : Fin 512 :=
  ⟨((va >>> UInt64.ofNat (12 + 9 * level)) &&& 0x1FF).toNat, by
    rw [UInt64.toNat_and]
    exact Nat.lt_succ_of_le Nat.and_le_right⟩

def Page.entry (page : Page) (i : Fin 512) : UInt64 :=
  page.addr + UInt64.ofNat (8 * i)

inductive Panic where
  /-- "kfree" -/
  | kfree
  /-- "walk" -/
  | walk
  /-- "mappages: va not aligned" -/
  | mappagesVa
  /-- "mappages: size not aligned" -/
  | mappagesSize
  /-- "mappages: size" -/
  | mappagesEmpty
  /-- "mappages: remap" -/
  | remap
  /-- "uvmunmap: not aligned" -/
  | uvmunmapVa
  /-- "uvmunmap: walk" -/
  | uvmunmapWalk
  /-- "uvmunmap: not mapped" -/
  | notMapped
  /-- "uvmunmap: not a leaf" -/
  | notLeaf
  /-- "freewalk: leaf" -/
  | freewalk
  /-- "uvmcopy: pte should exist" -/
  | uvmcopyPte
  /-- "uvmcopy: page not present" -/
  | uvmcopyPresent
  /-- "uvmclear" -/
  | uvmclear
  /-- "loadseg: address should exist" -/
  | loadseg
  /-- "filedup" -/
  | filedup
  /-- "kerneltrap", for a null pointer -/
  | kerneltrap
  deriving DecidableEq

/-- Memory by words of eight bytes, and kmem.freelist. -/
structure Ram where
  word : UInt64 → UInt64
  free : List Page
  /-- For the next calls of kalloc(): all pages are gone to others. -/
  denied : List Bool
  /-- `end` -/
  kernelEnd : UInt64

namespace Ram

variable (ram : Ram)

def store (a value : UInt64) : Ram :=
  { ram with word := Function.update ram.word a value }

def memset (page : Page) (value : UInt64) : Ram :=
  { ram with word := fun a =>
      if pgRoundDown a = page.addr then value else ram.word a }

def kalloc : Option Page × Ram :=
  match ram.denied, ram.free with
  | true :: denied, _ => (none, { ram with denied := denied })
  | denied, [] => (none, { ram with denied := denied.tail })
  | denied, page :: free =>
    (some page, { ram with denied := denied.tail, free := free }.memset page 0x0505050505050505)

def kfree (page : Page) : Except Panic Ram :=
  if page.addr < ram.kernelEnd ∨ phystop ≤ page.addr.toNat then
    .error .kfree
  else
    .ok { ram.memset page 0x0101010101010101 with free := page :: ram.free }

end Ram

end Xv6Lottery.Vm
