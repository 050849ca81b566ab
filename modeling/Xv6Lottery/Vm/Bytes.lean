import Xv6Lottery.Vm.Arithmetic
import Xv6Lottery.Vm.Copy

/-! Writes to the bytes of a page. -/

namespace Xv6Lottery.Vm

open Function

variable {ram : Ram} {page : Page} {a other : UInt64} {off i n : Nat}

theorem wordOf_toNat (a : UInt64) : (wordOf a).toNat = a.toNat / 8 * 8 := by
  have bound := a.toNat_lt
  rw [wordOf, UInt64.toNat_ofNat', Nat.mod_eq_of_lt]
  omega

theorem wordOf_page (a : UInt64) : pgRoundDown (wordOf a) = pgRoundDown a := by
  refine UInt64.toNat_inj.mp ?_
  rw [pgRoundDown_toNat, pgRoundDown_toNat, wordOf_toNat, pgsize]
  omega

theorem put_byte_toNat (word : UInt64) (a : UInt64) (b : UInt8) :
    (UInt64.ofNat (Digits.put 256 word.toNat (a.toNat % 8) b.toNat)).toNat =
      Digits.put 256 word.toNat (a.toNat % 8) b.toNat := by
  have bound : word.toNat < 256 ^ 8 := word.toNat_lt
  exact Nat.mod_eq_of_lt (Digits.put_lt b.toNat_lt bound (Nat.mod_lt _ (by decide)))

theorem storeByte_word (ram : Ram) (a : UInt64) (b : UInt8) :
    (ram.storeByte a b).word = update ram.word (wordOf a)
      (UInt64.ofNat (Digits.put 256 (ram.word (wordOf a)).toNat (a.toNat % 8) b.toNat)) := rfl

theorem byte_storeByte (ram : Ram) (a : UInt64) (b : UInt8) : (ram.storeByte a b).byte a = b := by
  rw [Ram.byte, storeByte_word, update_self, put_byte_toNat, Digits.digit_put_self b.toNat_lt]
  exact UInt8.ofNat_toNat

theorem byte_storeByte_of_ne (ram : Ram) (b : UInt8) (apart : other ≠ a) :
    (ram.storeByte a b).byte other = ram.byte other := by
  rw [Ram.byte, Ram.byte, storeByte_word]
  by_cases same : wordOf other = wordOf a
  · rw [same, update_self, put_byte_toNat, Digits.digit_put_of_ne b.toNat_lt]
    intro offsets
    have words := congrArg UInt64.toNat same
    rw [wordOf_toNat, wordOf_toNat] at words
    exact apart (UInt64.toNat_inj.mp (by omega))
  · rw [update_of_ne same]

theorem word_storeByte (ram : Ram) (b : UInt8) (apart : pgRoundDown other ≠ pgRoundDown a) :
    (ram.storeByte a b).word other = ram.word other := by
  refine update_of_ne ?_ ..
  rintro rfl
  exact apart (wordOf_page a)

/-! Addresses by page and offset. -/

def Page.byte (page : Page) (off : Nat) : UInt64 :=
  page.addr + UInt64.ofNat off

theorem Page.byte_toNat (page : Page) (small : off < 4096) :
    (page.byte off).toNat = page.addr.toNat + off := by
  have aligned : page.addr.toNat % 4096 = 0 := page.aligned
  have bound := page.addr.toNat_lt
  rw [Page.byte, UInt64.toNat_add, UInt64.toNat_ofNat']
  omega

theorem Page.byte_page (page : Page) (small : off < 4096) :
    pgRoundDown (page.byte off) = page.addr := by
  have aligned : page.addr.toNat % 4096 = 0 := page.aligned
  refine UInt64.toNat_inj.mp ?_
  rw [pgRoundDown_toNat, page.byte_toNat small, pgsize]
  omega

theorem Page.byte_inj (small : off < 4096) (otherSmall : i < 4096)
    (same : page.byte off = second.byte i) : page = second ∧ off = i := by
  have aligned : page.addr.toNat % 4096 = 0 := page.aligned
  have otherAligned : second.addr.toNat % 4096 = 0 := second.aligned
  have values := congrArg UInt64.toNat same
  rw [page.byte_toNat small, second.byte_toNat otherSmall] at values
  exact ⟨Page.eq_of_toNat (by omega), by omega⟩

theorem Page.byte_add (page : Page) (off i : Nat) :
    page.byte off + UInt64.ofNat i = page.byte (off + i) := by
  rw [Page.byte, Page.byte, UInt64.ofNat_add, UInt64.add_assoc]

/-! memmove() into a page. -/

section Memmove

variable (ram : Ram) (page : Page) (src : Nat → UInt8)

theorem memmove_written (room : off + n ≤ 4096) (less : i < n) :
    (ram.memmove (page.byte off) src n).byte (page.byte (off + i)) = src i := by
  induction n with
  | zero => exact absurd less (Nat.not_lt_zero i)
  | succ n induction =>
    rw [Ram.memmove, page.byte_add]
    by_cases last : i = n
    · rw [last, byte_storeByte]
    · rw [byte_storeByte_of_ne]
      · exact induction (by omega) (by omega)
      · intro same
        have equal := (Page.byte_inj (by omega) (by omega) same).2
        omega

theorem memmove_kept (room : off + n ≤ 4096) (apart : ∀ i < n, other ≠ page.byte (off + i)) :
    (ram.memmove (page.byte off) src n).byte other = ram.byte other := by
  induction n with
  | zero => rfl
  | succ n induction =>
    rw [Ram.memmove, page.byte_add, byte_storeByte_of_ne _ _ (apart n (Nat.lt_succ_self n))]
    exact induction (by omega) fun i less =>
      apart i (Nat.lt_succ_of_lt less)

theorem memmove_word (room : off + n ≤ 4096) (apart : pgRoundDown a ≠ page.addr) :
    (ram.memmove (page.byte off) src n).word a = ram.word a := by
  induction n with
  | zero => rfl
  | succ n induction =>
    rw [Ram.memmove, page.byte_add, word_storeByte]
    · exact induction (by omega)
    · rw [page.byte_page (by omega)]
      exact apart

end Memmove

/-! The parts of a copy. -/

theorem chunk_toNat (va len : UInt64) :
    (chunk va len).toNat = min (4096 - va.toNat % 4096) len.toNat := by
  have unit : (4096 : UInt64).toNat = 4096 := rfl
  have down := pgRoundDown_toNat va
  have size : pgsize = 4096 := rfl
  rw [size] at down
  have inner : (va - pgRoundDown va).toNat = va.toNat % 4096 := by
    rw [UInt64.toNat_sub_of_le, down]
    · omega
    · rw [UInt64.le_iff_toNat_le, down]
      omega
  have whole : (4096 - (va - pgRoundDown va)).toNat = 4096 - va.toNat % 4096 := by
    rw [UInt64.toNat_sub_of_le, inner, unit]
    rw [UInt64.le_iff_toNat_le, inner, unit]
    omega
  unfold chunk
  dsimp only
  split
  next more =>
    rw [gt_iff_lt, UInt64.lt_iff_toNat_lt, whole] at more
    omega
  next less =>
    rw [gt_iff_lt, UInt64.lt_iff_toNat_lt, whole] at less
    rw [whole]
    omega

theorem offset_eq (va : UInt64) (page : Page) :
    page.addr + (va - pgRoundDown va) = page.byte (va.toNat % 4096) := by
  have down := pgRoundDown_toNat va
  have size : pgsize = 4096 := rfl
  rw [size] at down
  rw [Page.byte]
  congr 1
  refine UInt64.toNat_inj.mp ?_
  rw [UInt64.toNat_sub_of_le, down, UInt64.toNat_ofNat']
  · omega
  · rw [UInt64.le_iff_toNat_le, down]
    omega

end Xv6Lottery.Vm
