import Xv6Lottery.Vm.Memory

/-! Addresses and page-table entries as numbers. -/

namespace Xv6Lottery.Vm

theorem pgRoundDown_toNat (a : UInt64) : (pgRoundDown a).toNat = a.toNat / pgsize * pgsize := by
  have mask : (~~~4095 : UInt64).toNat = (2 ^ 52 - 1) <<< 12 := by decide
  have whole : a.toNat / pgsize * pgsize = a.toNat >>> 12 <<< 12 := by
    rw [Nat.shiftRight_eq_div_pow, Nat.shiftLeft_eq]
    rfl
  rw [pgRoundDown, UInt64.toNat_and, mask, whole]
  refine Nat.eq_of_testBit_eq fun i => ?_
  rw [Nat.testBit_and, Nat.testBit_shiftLeft, Nat.testBit_shiftLeft,
    Nat.testBit_two_pow_sub_one, Nat.testBit_shiftRight]
  by_cases low : 12 ≤ i
  · rw [Nat.add_sub_cancel' low]
    by_cases high : i < 64
    · have inside : i - 12 < 52 := by omega
      simp only [low, inside, decide_true, Bool.and_true, Bool.true_and]
    · have zero : a.toNat.testBit i = false :=
        Nat.testBit_lt_two_pow (a.toNat_lt.trans_le (Nat.pow_le_pow_right (by decide) (by omega)))
      simp only [zero, Bool.and_false, Bool.false_and]
  · simp only [low, decide_false, Bool.and_false, Bool.false_and]

theorem Page.eq_of_toNat {page other : Page}
    (same : page.addr.toNat = other.addr.toNat) : page = other := by
  cases page
  cases other
  cases UInt64.toNat_inj.mp same
  rfl

/-! Entries. -/

theorem pa2pte_toNat (page : Page) :
    (pa2pte page.addr).toNat = 2 ^ 10 * (page.addr.toNat / pgsize) := by
  have small := page.addr.toNat_lt
  rw [pa2pte, UInt64.toNat_shiftLeft, UInt64.toNat_shiftRight]
  change (page.addr.toNat >>> 12) <<< 10 % 2 ^ 64 = _
  rw [Nat.shiftLeft_eq, Nat.shiftRight_eq_div_pow, pgsize]
  omega

section Pte

variable (page : Page) {flags : UInt64} (small : flags.toNat < 2 ^ 10)

include small

theorem pte_toNat :
    (pa2pte page.addr ||| flags).toNat = 2 ^ 10 * (page.addr.toNat / pgsize) + flags.toNat := by
  rw [UInt64.toNat_or, pa2pte_toNat, Nat.two_pow_add_eq_or_of_lt small]

theorem pte2pa_pte : pte2pa (pa2pte page.addr ||| flags) = page := by
  have aligned := page.aligned
  have bound := page.addr.toNat_lt
  refine Page.eq_of_toNat ?_
  change (_ <<< _ : UInt64).toNat = _
  rw [UInt64.toNat_shiftLeft, UInt64.toNat_shiftRight, pte_toNat page small]
  change _ >>> 10 <<< 12 % 2 ^ 64 = _
  rw [Nat.shiftLeft_eq, Nat.shiftRight_eq_div_pow]
  simp only [pgsize] at *
  omega

theorem pteFlags_pte : pteFlags (pa2pte page.addr ||| flags) = flags := by
  refine UInt64.toNat_inj.mp ?_
  rw [pteFlags, UInt64.toNat_and, pte_toNat page small]
  change _ &&& (2 ^ 10 - 1) = _
  rw [Nat.and_two_pow_sub_one_eq_mod]
  omega

end Pte

theorem pteFlags_and (pte : UInt64) (isFlag : 0x3FF &&& flag = flag) :
    pteFlags pte &&& flag = pte &&& flag := by
  rw [pteFlags, UInt64.and_assoc, isFlag]

/-! Page numbers. -/

abbrev Vpn := Fin (maxva / pgsize)

def vpn (va : UInt64) (small : va.toNat < maxva) : Vpn :=
  ⟨va.toNat / pgsize, Nat.div_lt_div_of_lt_of_dvd (by decide) small⟩

def Vpn.index (level : Nat) (n : Vpn) : Fin 512 :=
  Fin.ofNat 512 (n.val / 512 ^ level)

theorem Vpn.eq_of_index {n m : Vpn} (high : n.index 2 = m.index 2)
    (middle : n.index 1 = m.index 1) (low : n.index 0 = m.index 0) : n = m := by
  have small : n.val < 2 ^ 26 := n.isLt
  have otherSmall : m.val < 2 ^ 26 := m.isLt
  have highs : n.val / 512 ^ 2 % 512 = m.val / 512 ^ 2 % 512 :=
    congrArg Fin.val high
  have middles : n.val / 512 ^ 1 % 512 = m.val / 512 ^ 1 % 512 :=
    congrArg Fin.val middle
  have lows : n.val / 512 ^ 0 % 512 = m.val / 512 ^ 0 % 512 :=
    congrArg Fin.val low
  refine Fin.ext ?_
  omega

theorem px_eq (levels : level < 3) (va : UInt64) (small : va.toNat < maxva) :
    px level va = (vpn va small).index level := by
  refine Fin.ext ?_
  have shift : (UInt64.ofNat (12 + 9 * level)).toNat % 64 = 12 + 9 * level := by
    rw [UInt64.toNat_ofNat']
    omega
  change ((va >>> UInt64.ofNat (12 + 9 * level)) &&& 0x1FF).toNat =
    va.toNat / pgsize / 512 ^ level % 512
  rw [UInt64.toNat_and, UInt64.toNat_shiftRight, shift, Nat.shiftRight_eq_div_pow]
  change _ &&& (2 ^ 9 - 1) = _ % 2 ^ 9
  rw [Nat.and_two_pow_sub_one_eq_mod, Nat.div_div_eq_div_mul, Nat.pow_add, Nat.pow_mul]
  rfl

/-! The words of a page. -/

theorem Page.entry_toNat (page : Page) (i : Fin 512) :
    (page.entry i).toNat = page.addr.toNat + 8 * i := by
  have aligned := page.aligned
  have bound := page.addr.toNat_lt
  rw [Page.entry, UInt64.toNat_add, UInt64.toNat_ofNat']
  simp only [pgsize] at *
  omega

theorem Page.entry_page (page : Page) (i : Fin 512) : pgRoundDown (page.entry i) = page.addr := by
  have aligned := page.aligned
  refine UInt64.toNat_inj.mp ?_
  rw [pgRoundDown_toNat, entry_toNat]
  simp only [pgsize] at *
  omega

theorem Page.entry_inj {page other : Page} (same : page.entry i = other.entry j) :
    page = other ∧ i = j := by
  have values := congrArg UInt64.toNat same
  rw [entry_toNat, entry_toNat] at values
  have first := page.aligned
  have second := other.aligned
  simp only [pgsize] at *
  exact ⟨Page.eq_of_toNat (by omega), Fin.ext (by omega)⟩

theorem Page.entry_ne_zero {page : Page} (nonzero : page.addr ≠ 0)
    (i : Fin 512) : page.entry i ≠ 0 := by
  intro zero
  have value := congrArg UInt64.toNat zero
  rw [entry_toNat] at value
  refine nonzero (UInt64.toNat_inj.mp ?_)
  have zero : (0 : UInt64).toNat = 0 := rfl
  omega

def Ram.entries (ram : Ram) (page : Page) (i : Fin 512) : UInt64 :=
  ram.word (page.entry i)

theorem Ram.entries_store (ram : Ram) (page : Page) (i : Fin 512) (value : UInt64) :
    (ram.store (page.entry i) value).entries page i = value :=
  Function.update_self ..

theorem Ram.entries_store_of_ne (ram : Ram) {page other : Page} (value : UInt64)
    (apart : ¬(other = page ∧ j = i)) :
    (ram.store (page.entry i) value).entries other j = ram.entries other j :=
  Function.update_of_ne (fun same => apart (Page.entry_inj same)) ..

theorem Ram.entries_memset (ram : Ram) (page : Page) (value : UInt64)
    (i : Fin 512) : (ram.memset page value).entries page i = value :=
  if_pos (page.entry_page i)

theorem Ram.entries_memset_of_ne (ram : Ram) {page other : Page}
    (value : UInt64) (apart : other ≠ page) (i : Fin 512) :
    (ram.memset page value).entries other i = ram.entries other i := by
  refine if_neg fun same => apart (Page.eq_of_toNat ?_)
  rw [other.entry_page i] at same
  exact congrArg UInt64.toNat same

end Xv6Lottery.Vm
