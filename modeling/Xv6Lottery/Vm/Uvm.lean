import Xv6Lottery.Vm.AddressSpace
import Xv6Lottery.Vm.Copy

/-! The memory of processes: uvmcreate() to uvmclear() of vm.c, and the page
tables of proc.c. -/

namespace Xv6Lottery.Vm

def extend (n : Int32) : UInt64 := n.toInt64.toUInt64

def truncate (x : UInt64) : Int32 := x.toUInt32.toInt32

def uvmcreate (ram : Ram) : Option Page × Ram :=
  match ram.kalloc with
  | (none, ram) => (none, ram)
  | (some pagetable, ram) => (some pagetable, ram.memset pagetable 0)

def uvmdealloc (pagetable : Page) (oldsz newsz : UInt64) (ram : Ram) :
    Except Panic (UInt64 × Ram) :=
  if oldsz ≤ newsz then .ok (oldsz, ram)
  else if pgRoundUp newsz < pgRoundUp oldsz then do
    let npages := truncate ((pgRoundUp oldsz - pgRoundUp newsz) / 4096)
    let ram ← uvmunmap pagetable (pgRoundUp newsz) (extend npages) true ram
    return (newsz, ram)
  else .ok (newsz, ram)

def uvmallocFrom (pagetable : Page) (oldsz newsz xperm : UInt64) :
    Nat → UInt64 → Ram → Except Panic (UInt64 × Ram)
  | 0, _, _ => .error .walk
  | rounds + 1, a, ram =>
    if a < newsz then
      match ram.kalloc with
      | (none, ram) => do
          let (_, ram) ← uvmdealloc pagetable a oldsz ram
          return (0, ram)
      | (some mem, ram) => do
          let (code, ram) ← mappages pagetable a 4096 mem.addr
            (pteR ||| pteU ||| xperm) (ram.memset mem 0)
          if code ≠ 0 then
            let ram ← ram.kfree mem
            let (_, ram) ← uvmdealloc pagetable a oldsz ram
            return (0, ram)
          else uvmallocFrom pagetable oldsz newsz xperm rounds (a + 4096) ram
    else .ok (newsz, ram)

def uvmalloc (pagetable : Page) (oldsz newsz xperm : UInt64) (ram : Ram) :
    Except Panic (UInt64 × Ram) :=
  if newsz < oldsz then .ok (oldsz, ram)
  else uvmallocFrom pagetable (pgRoundUp oldsz) newsz xperm rounds (pgRoundUp oldsz) ram

def freewalkEntry (freewalk : Page → Ram → Except Panic Ram)
    (pagetable : Page) (ram : Ram) (i : Fin 512) : Except Panic Ram :=
  let pte := ram.word (pagetable.entry i)
  if pte &&& pteV ≠ 0 ∧ pte &&& (pteR ||| pteW ||| pteX) = 0 then do
    let ram ← freewalk (pte2pa pte) ram
    return ram.store (pagetable.entry i) 0
  else if pte &&& pteV ≠ 0 then .error .freewalk
  else .ok ram

/-- With the number of levels of the table. -/
def freewalk : Nat → Page → Ram → Except Panic Ram
  | 0, _, _ => .error .walk
  | levels + 1, pagetable, ram => do
      let ram ← (List.finRange 512).foldlM (freewalkEntry (freewalk levels) pagetable) ram
      ram.kfree pagetable

def uvmfree (pagetable : Page) (sz : UInt64) (ram : Ram) : Except Panic Ram :=
  if sz > 0 then do
    let ram ← uvmunmap pagetable 0 (pgRoundUp sz / 4096) true ram
    freewalk 3 pagetable ram
  else freewalk 3 pagetable ram

def uvmcopyUndo (new : Page) (i : UInt64) (ram : Ram) : Except Panic (Int × Ram) := do
  let ram ← uvmunmap new 0 (i / 4096) true ram
  return (-1, ram)

def uvmcopyFrom (old new : Page) (sz : UInt64) : Nat → UInt64 → Ram → Except Panic (Int × Ram)
  | 0, _, _ => .error .walk
  | rounds + 1, i, ram =>
    if i < sz then do
      let (pte, ram) ← walk old i false ram
      if pte = 0 then .error .uvmcopyPte
      else if ram.word pte &&& pteV = 0 then .error .uvmcopyPresent
      else
        let pa := pte2pa (ram.word pte)
        let flags := pteFlags (ram.word pte)
        match ram.kalloc with
        | (none, ram) => uvmcopyUndo new i ram
        | (some mem, ram) => do
            let (code, ram) ← mappages new i 4096 mem.addr flags (ram.memmove mem.addr
                (fun j => ram.byte (pa.addr + UInt64.ofNat j)) pgsize)
            if code ≠ 0 then
              let ram ← ram.kfree mem
              uvmcopyUndo new i ram
            else uvmcopyFrom old new sz rounds (i + 4096) ram
    else .ok (0, ram)

def uvmcopy (old new : Page) (sz : UInt64) (ram : Ram) : Except Panic (Int × Ram) :=
  uvmcopyFrom old new sz rounds 0 ram

def uvmclear (pagetable : Page) (va : UInt64) (ram : Ram) : Except Panic Ram := do
  let (pte, ram) ← walk pagetable va false ram
  if pte = 0 then .error .uvmclear
  else .ok (ram.store pte (ram.word pte &&& ~~~pteU))

/-- The page table of a process whose trapframe is at a page; `text` is the page
with the code of trampoline.S. -/
def procPagetable (text frame : Page) (ram : Ram) : Except Panic (Option Page × Ram) :=
  match uvmcreate ram with
  | (none, ram) => .ok (none, ram)
  | (some pagetable, ram) => do
      let (code, ram) ← mappages pagetable trampoline 4096 text.addr (pteR ||| pteX) ram
      if code < 0 then
        let ram ← uvmfree pagetable 0 ram
        return (none, ram)
      else
        let (code, ram) ← mappages pagetable trapframe 4096 frame.addr (pteR ||| pteW) ram
        if code < 0 then
          let ram ← uvmunmap pagetable trampoline 1 false ram
          let ram ← uvmfree pagetable 0 ram
          return (none, ram)
        else return (some pagetable, ram)

def procFreepagetable (pagetable : Page) (sz : UInt64) (ram : Ram) : Except Panic Ram := do
  let ram ← uvmunmap pagetable trampoline 1 false ram
  let ram ← uvmunmap pagetable trapframe 1 false ram
  uvmfree pagetable sz ram

structure Image where
  pagetable : Page
  sz : UInt64

def growproc (p : Image) (n : Int32) (ram : Ram) : Except Panic (Int × Image × Ram) :=
  if n > 0 then do
    let (sz, ram) ← uvmalloc p.pagetable p.sz (p.sz + extend n) pteW ram
    if sz = 0 then return (-1, p, ram)
    else return (0, { p with sz := sz }, ram)
  else if n < 0 then do
    let (sz, ram) ← uvmdealloc p.pagetable p.sz (p.sz + extend n) ram
    return (0, { p with sz := sz }, ram)
  else .ok (0, p, ram)

end Xv6Lottery.Vm
