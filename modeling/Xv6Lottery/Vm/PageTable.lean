import Xv6Lottery.Vm.Memory

/-! The page tables of vm.c. -/

namespace Xv6Lottery.Vm

/-- The loop of walk(), from a level down. -/
def walkFrom (va : UInt64) (alloc : Bool) : Nat → Page → Ram → UInt64 × Ram
  | 0, pagetable, ram => (pagetable.entry (px 0 va), ram)
  | level + 1, pagetable, ram =>
    let pte := pagetable.entry (px (level + 1) va)
    if ram.word pte &&& pteV ≠ 0 then
      walkFrom va alloc level (pte2pa (ram.word pte)) ram
    else if alloc then
      match ram.kalloc with
      | (none, ram) => (0, ram)
      | (some page, ram) =>
        walkFrom va alloc level page ((ram.memset page 0).store pte (pa2pte page.addr ||| pteV))
    else (0, ram)

def walk (pagetable : Page) (va : UInt64) (alloc : Bool) (ram : Ram) :
    Except Panic (UInt64 × Ram) :=
  if maxva ≤ va.toNat then .error .walk
  else .ok (walkFrom va alloc 2 pagetable ram)

def walkaddr (pagetable : Page) (va : UInt64) (ram : Ram) : Except Panic (UInt64 × Ram) :=
  if maxva ≤ va.toNat then .ok (0, ram)
  else
    match walk pagetable va false ram with
    | .error why => .error why
    | .ok (pte, ram) =>
      if pte = 0 then .ok (0, ram)
      else if ram.word pte &&& pteV = 0 then .ok (0, ram)
      else if ram.word pte &&& pteU = 0 then .ok (0, ram)
      else .ok ((pte2pa (ram.word pte)).addr, ram)

/-- More rounds than walk() lets a loop over addresses have. -/
def rounds : Nat := maxva / pgsize + 1

def mappagesFrom (pagetable : Page) (last perm : UInt64) :
    Nat → UInt64 → UInt64 → Ram → Except Panic (Int × Ram)
  | 0, _, _, _ => .error .walk
  | rounds + 1, a, pa, ram =>
    match walk pagetable a true ram with
    | .error why => .error why
    | .ok (pte, ram) =>
      if pte = 0 then .ok (-1, ram)
      else if ram.word pte &&& pteV ≠ 0 then .error .remap
      else
        let ram := ram.store pte (pa2pte pa ||| perm ||| pteV)
        if a = last then .ok (0, ram)
        else mappagesFrom pagetable last perm rounds (a + 4096) (pa + 4096) ram

def mappages (pagetable : Page) (va size pa perm : UInt64) (ram : Ram) : Except Panic (Int × Ram) :=
  if va % 4096 ≠ 0 then .error .mappagesVa
  else if size % 4096 ≠ 0 then .error .mappagesSize
  else if size = 0 then .error .mappagesEmpty
  else mappagesFrom pagetable (va + size - 4096) perm rounds va pa ram

def uvmunmapFrom (pagetable : Page) (doFree : Bool) (stop : UInt64) :
    Nat → UInt64 → Ram → Except Panic Ram
  | 0, _, _ => .error .walk
  | rounds + 1, a, ram =>
    if a < stop then
      match walk pagetable a false ram with
      | .error why => .error why
      | .ok (pte, ram) =>
        if pte = 0 then .error .uvmunmapWalk
        else if ram.word pte &&& pteV = 0 then .error .notMapped
        else if pteFlags (ram.word pte) = pteV then .error .notLeaf
        else
          match (if doFree then ram.kfree (pte2pa (ram.word pte))
            else .ok ram) with
          | .error why => .error why
          | .ok ram =>
            uvmunmapFrom pagetable doFree stop rounds (a + 4096) (ram.store pte 0)
    else .ok ram

def uvmunmap (pagetable : Page) (va npages : UInt64) (doFree : Bool)
    (ram : Ram) : Except Panic Ram :=
  if va % 4096 ≠ 0 then .error .uvmunmapVa
  else uvmunmapFrom pagetable doFree (va + npages * 4096) rounds va ram

end Xv6Lottery.Vm
