import Xv6Lottery.Vm.Mapping

/-! The address space of a process. -/

namespace Xv6Lottery.Vm

def trampoline : UInt64 := UInt64.ofNat (maxva - pgsize)

def trapframe : UInt64 := trampoline - 4096

def trampolinePage : Vpn := vpn trampoline (by decide)

def trapframePage : Vpn := vpn trapframe (by decide)

def pages (sz : UInt64) : Nat := (pgRoundUp sz).toNat / pgsize

/-- User memory is the pages below the size of the process, each with a frame of
its own from kalloc(); the only other pages are the trampoline and the
trapframe. -/
structure AddressSpace (ram : Ram) (root : Page) (sz : UInt64) : Prop where
  table : Table ram root
  user : ∀ n : Vpn, n.val < pages sz → ∃ leaf, view ram root n = some leaf ∧ leaf.flags &&& pteR ≠ 0
  nothing : ∀ n : Vpn, pages sz ≤ n.val → n < trapframePage → view ram root n = none
  trapframe : ∃ leaf, view ram root trapframePage = some leaf ∧ leaf.flags &&& pteU = 0
  trampoline : ∃ leaf, view ram root trampolinePage = some leaf ∧ leaf.flags &&& pteU = 0
  apart : ∀ {n : Vpn} {leaf}, n.val < pages sz →
    view ram root n = some leaf → ¬Node ram root leaf.frame ∧ leaf.frame.addr ≠ 0
  distinct : ∀ {n m : Vpn} {leaf other}, n.val < pages sz →
    m.val < pages sz → view ram root n = some leaf →
      view ram root m = some other → leaf.frame = other.frame → n = m

/-- The frames that user code can use are not shared, and not pages of the
table. -/
structure Private (ram : Ram) (root : Page) : Prop where
  table : Table ram root
  apart : ∀ {n leaf}, view ram root n = some leaf →
    leaf.flags &&& pteU ≠ 0 → ¬Node ram root leaf.frame
  nonzero : ∀ {n leaf}, view ram root n = some leaf → leaf.flags &&& pteU ≠ 0 → leaf.frame.addr ≠ 0
  distinct : ∀ {n m leaf other}, view ram root n = some leaf →
    view ram root m = some other → leaf.flags &&& pteU ≠ 0 →
      other.flags &&& pteU ≠ 0 → leaf.frame = other.frame → n = m

variable {ram after : Ram} {root : Page} {sz : UInt64}

theorem AddressSpace.below (space : AddressSpace ram root sz)
    (found : view ram root n = some leaf) (user : leaf.flags &&& pteU ≠ 0) : n.val < pages sz := by
  refine Nat.lt_of_not_le fun above => ?_
  have frame : trapframePage.val = 2 ^ 26 - 2 := by decide
  have line : trampolinePage.val = 2 ^ 26 - 1 := by decide
  have bound : n.val < 2 ^ 26 := n.isLt
  by_cases low : n < trapframePage
  · cases (space.nothing n above low).symm.trans found
  · rw [Fin.lt_def] at low
    by_cases same : n = trapframePage
    · obtain ⟨other, theirs, noUser⟩ := space.trapframe
      rw [same] at found
      cases found.symm.trans theirs
      exact user noUser
    · have same : n = trampolinePage := by
        have differs : n.val ≠ trapframePage.val := fun equal =>
          same (Fin.ext equal)
        exact Fin.ext (by omega)
      obtain ⟨other, theirs, noUser⟩ := space.trampoline
      rw [same] at found
      cases found.symm.trans theirs
      exact user noUser

theorem AddressSpace.isPrivate (space : AddressSpace ram root sz) : Private ram root where
  table := space.table
  apart := fun found user => (space.apart (space.below found user) found).1
  nonzero := fun found user => (space.apart (space.below found user) found).2
  distinct := fun found theirs user other => space.distinct
    (space.below found user) (space.below theirs other) found theirs

theorem Private.outside (isPrivate : Private ram root)
    (same : ∀ {page i}, Node ram root page → after.entries page i = ram.entries page i) :
    Private after root := by
  have views := view_outside same
  exact {
    table := isPrivate.table.outside same
    apart := fun found user node => by
      rw [views] at found
      exact isPrivate.apart found user ((node_outside same).mp node)
    nonzero := fun found => by
      rw [views] at found
      exact isPrivate.nonzero found
    distinct := fun found theirs => by
      rw [views] at found theirs
      exact isPrivate.distinct found theirs }

end Xv6Lottery.Vm
