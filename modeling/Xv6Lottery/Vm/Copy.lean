import Xv6Lottery.Lib.Digits
import Xv6Lottery.Vm.PageTable

/-! The bytes of memory, and copyout(), copyin() and copyinstr(). Buffers of
the kernel are not among the pages that user code can reach, and are kept
apart. -/

namespace Xv6Lottery.Vm

def wordOf (a : UInt64) : UInt64 := UInt64.ofNat (a.toNat / 8 * 8)

namespace Ram

variable (ram : Ram)

def byte (a : UInt64) : UInt8 :=
  UInt8.ofNat (Digits.digit 256 (ram.word (wordOf a)).toNat (a.toNat % 8))

def storeByte (a : UInt64) (b : UInt8) : Ram :=
  ram.store (wordOf a) (UInt64.ofNat
    (Digits.put 256 (ram.word (wordOf a)).toNat (a.toNat % 8) b.toNat))

def memmove (dst : UInt64) (src : Nat → UInt8) : Nat → Ram
  | 0 => ram
  | n + 1 => (memmove dst src n).storeByte (dst + UInt64.ofNat n) (src n)

end Ram

def chunk (va len : UInt64) : UInt64 :=
  let n := 4096 - (va - pgRoundDown va)
  if n > len then len else n

def copyoutFrom (pagetable : Page) :
    Nat → UInt64 → (Nat → UInt8) → UInt64 → Ram → Except Panic (Int × Ram)
  | 0, _, _, _, _ => .error .walk
  | rounds + 1, dstva, src, len, ram =>
    if len > 0 then
      let va0 := pgRoundDown dstva
      if maxva ≤ va0.toNat then .ok (-1, ram)
      else
        match walk pagetable va0 false ram with
        | .error why => .error why
        | .ok (pte, ram) =>
          if pte = 0 ∨ ram.word pte &&& pteV = 0 ∨
              ram.word pte &&& pteU = 0 ∨ ram.word pte &&& pteW = 0 then
            .ok (-1, ram)
          else
            let pa0 := (pte2pa (ram.word pte)).addr
            let n := chunk dstva len
            copyoutFrom pagetable rounds (va0 + 4096) (fun i => src (n.toNat + i)) (len - n)
              (ram.memmove (pa0 + (dstva - va0)) src n.toNat)
    else .ok (0, ram)

def copyout (pagetable : Page) (dstva : UInt64) (src : Nat → UInt8)
    (len : UInt64) (ram : Ram) : Except Panic (Int × Ram) :=
  copyoutFrom pagetable rounds dstva src len ram

def fill (ram : Ram) (dst : Nat → UInt8) (pos : Nat) (src : UInt64) (n : Nat) (i : Nat) : UInt8 :=
  if pos ≤ i ∧ i < pos + n then ram.byte (src + UInt64.ofNat (i - pos))
  else dst i

def copyinFrom (pagetable : Page) (ram : Ram) : Nat → (Nat → UInt8) → Nat → UInt64 → UInt64 →
      Except Panic (Int × (Nat → UInt8))
  | 0, _, _, _, _ => .error .walk
  | rounds + 1, dst, pos, srcva, len =>
    if len > 0 then
      let va0 := pgRoundDown srcva
      match walkaddr pagetable va0 ram with
      | .error why => .error why
      | .ok (pa0, _) =>
        if pa0 = 0 then .ok (-1, dst)
        else
          let n := chunk srcva len
          copyinFrom pagetable ram rounds (fill ram dst pos (pa0 + (srcva - va0)) n.toNat)
            (pos + n.toNat) (va0 + 4096) (len - n)
    else .ok (0, dst)

def copyin (pagetable : Page) (dst : Nat → UInt8) (srcva len : UInt64)
    (ram : Ram) : Except Panic (Int × (Nat → UInt8)) :=
  copyinFrom pagetable ram rounds dst 0 srcva len

/-- Whether there was a NUL, the buffer, and the position in it. -/
structure Scanned where
  gotNull : Bool
  dst : Nat → UInt8
  pos : Nat

def copyinstrPage (ram : Ram) : Nat → UInt64 → (Nat → UInt8) → Nat → Scanned
  | 0, _, dst, pos => ⟨false, dst, pos⟩
  | n + 1, p, dst, pos =>
    if ram.byte p = 0 then ⟨true, Function.update dst pos 0, pos⟩
    else copyinstrPage ram n (p + 1) (Function.update dst pos (ram.byte p)) (pos + 1)

def copyinstrFrom (pagetable : Page) (ram : Ram) : Nat → (Nat → UInt8) → Nat → UInt64 → UInt64 →
      Except Panic (Int × (Nat → UInt8))
  | 0, _, _, _, _ => .error .walk
  | rounds + 1, dst, pos, srcva, max =>
    if max > 0 then
      let va0 := pgRoundDown srcva
      match walkaddr pagetable va0 ram with
      | .error why => .error why
      | .ok (pa0, _) =>
        if pa0 = 0 then .ok (-1, dst)
        else
          let n := chunk srcva max
          let scanned :=
            copyinstrPage ram n.toNat (pa0 + (srcva - va0)) dst pos
          if scanned.gotNull then .ok (0, scanned.dst)
          else copyinstrFrom pagetable ram rounds scanned.dst scanned.pos (va0 + 4096) (max - n)
    else .ok (-1, dst)

def copyinstr (pagetable : Page) (dst : Nat → UInt8) (srcva max : UInt64)
    (ram : Ram) : Except Panic (Int × (Nat → UInt8)) :=
  copyinstrFrom pagetable ram rounds dst 0 srcva max

end Xv6Lottery.Vm
