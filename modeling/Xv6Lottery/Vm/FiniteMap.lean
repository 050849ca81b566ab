import Xv6Lottery.Vm.Mapping

/-! Page tables are finite maps. -/

namespace Xv6Lottery.Vm

open RadixTree

variable {ram : Ram} {root : Page}

/-- walk(), mappages(), uvmunmap() and walkaddr() on the map of a page table:
each changes the mappings that it is asked to change and no other one. -/
structure FiniteMap (ram : Ram) (root : Page) : Prop where
  walk : ∀ va alloc, va.toNat < maxva → ∃ pte after, walk root va alloc ram = .ok (pte, after) ∧
      Table after root ∧ view after root = view ram root
  mappages : ∀ (va size : UInt64) (pa : Page) (perm : UInt64),
    perm.toNat < 2 ^ 10 → va.toNat % pgsize = 0 →
    size.toNat % pgsize = 0 → size ≠ 0 → va.toNat + size.toNat ≤ maxva →
    (∀ n : Vpn, va.toNat / pgsize ≤ n.val → n.val < va.toNat / pgsize + size.toNat / pgsize →
        view ram root n = none) → ∃ code after, mappages root va size pa.addr perm ram =
        .ok (code, after) ∧ Table after root ∧ (code = 0 ∧ view after root = mapped (view ram root)
          (va.toNat / pgsize) pa (perm ||| pteV) (size.toNat / pgsize) ∨
        code = -1 ∧ ∃ done < size.toNat / pgsize, view after root =
          mapped (view ram root) (va.toNat / pgsize) pa (perm ||| pteV) done)
  /-- Each page of the range is mapped, and its frame can be freed if it is to
  be freed. -/
  uvmunmap : ∀ (va npages : UInt64) (doFree : Bool),
    va.toNat % pgsize = 0 → va.toNat + pgsize * npages.toNat ≤ maxva →
    (∀ n : Vpn, va.toNat / pgsize ≤ n.val → n.val < va.toNat / pgsize + npages.toNat →
      ∃ leaf, view ram root n = some leaf ∧ leaf.flags ≠ pteV ∧
        (doFree = true → ¬Node ram root leaf.frame ∧ ram.kernelEnd ≤ leaf.frame.addr ∧
          leaf.frame.addr.toNat < phystop)) →
    ∃ after, uvmunmap root va npages doFree ram = .ok after ∧ Table after root ∧ view after root =
        removed (view ram root) (va.toNat / pgsize) npages.toNat
  walkaddr : ∀ va, walkaddr root va ram = .ok ((userFrame ram root va).elim 0 Page.addr, ram)

theorem page_table_is_finite_map (table : Table ram root)
    (fresh : Fresh ram root) : FiniteMap ram root where
  walk := fun va alloc small => by
    cases alloc with
    | true =>
      obtain ⟨pte, after, done, grown, _⟩ := walk_alloc table fresh small
      exact ⟨pte, after, done, grown.table, grown.view⟩
    | false =>
      rcases walk_read table small with ⟨done, _⟩ | ⟨pte, done, _⟩
      · exact ⟨0, ram, done, table, rfl⟩
      · exact ⟨pte, ram, done, table, rfl⟩
  mappages := fun va size pa perm small aligned whole some bound unmapped => by
    obtain ⟨code, after, done, extended, result⟩ :=
      mappages_spec table fresh pa small aligned whole some bound unmapped
    exact ⟨code, after, done, extended.table, result⟩
  uvmunmap := fun va npages doFree aligned bound leaves => by
    obtain ⟨after, done, shrinks, result⟩ :=
      uvmunmap_spec table doFree aligned bound leaves
    exact ⟨after, done, shrinks.table, result⟩
  walkaddr := walkaddr_eq table

/-! A page of zeroes is a page table. -/

section Empty

variable (empty : ∀ i, ram.entries root i = 0)

include empty

theorem descend_empty (i : Fin 512) (path : List (Fin 512)) :
    descend child ram.entries root (i :: path) = none := by
  rw [descend, empty i]
  rfl

theorem node_empty : Node ram root page ↔ page = root := by
  constructor
  · rintro ⟨path, _, found⟩
    cases path with
    | nil => exact (Option.some.inj found).symm
    | cons i path => cases (descend_empty empty i path).symm.trans found
  · rintro rfl
    exact ⟨[], Nat.zero_le _, rfl⟩

theorem Table.of_empty (nonzero : root.addr ≠ 0) : Table ram root where
  tree := ⟨fun {path other page} _ _ first second => by
    cases path with
    | cons i path => cases (descend_empty empty i path).symm.trans first
    | nil =>
      cases other with
      | cons i path => cases (descend_empty empty i path).symm.trans second
      | nil => rfl⟩
  nonzero := fun node => by
    rw [(node_empty empty).mp node]
    exact nonzero

theorem view_empty (n : Vpn) : view ram root n = none := by
  rw [view, lookup, Vpn.path, descend_empty empty]
  rfl

end Empty

def young : Ram where
  word := fun _ => 0
  free := [⟨0x80001000, by decide⟩, ⟨0x80002000, by decide⟩,
    ⟨0x80003000, by decide⟩]
  denied := []
  kernelEnd := 0x80000000

def youngRoot : Page := ⟨0x80000000, by decide⟩

theorem young_table : Table young youngRoot :=
  .of_empty (fun _ => rfl) (by decide)

theorem young_fresh : Fresh young youngRoot where
  nodup := by decide
  apart := fun {page} member node => by
    rw [(node_empty fun _ => rfl).mp node] at member
    revert member
    decide
  nonzero := by
    have all : ∀ page ∈ young.free, page.addr ≠ 0 := by decide
    exact fun {page} member => all page member

theorem page_table_is_finite_map_young :
    (mappages youngRoot 0x1000 0x2000 0x80003000 pteR young).map Prod.fst = .ok 0 ∧
      FiniteMap young youngRoot :=
  ⟨by decide +kernel, page_table_is_finite_map young_table young_fresh⟩

end Xv6Lottery.Vm
