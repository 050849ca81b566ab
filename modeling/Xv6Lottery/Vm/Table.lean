import Xv6Lottery.Lib.RadixTree
import Xv6Lottery.Vm.Arithmetic
import Xv6Lottery.Vm.PageTable

/-! A page table as a map from page numbers, and what walk() does to it. -/

namespace Xv6Lottery.Vm

open RadixTree Function

def child (pte : UInt64) : Option Page :=
  if pte &&& pteV ≠ 0 then some (pte2pa pte) else none

structure Leaf where
  frame : Page
  flags : UInt64
  deriving DecidableEq

def decode (pte : UInt64) : Option Leaf :=
  if pte &&& pteV ≠ 0 then some ⟨pte2pa pte, pteFlags pte⟩ else none

def Vpn.path (n : Vpn) : List (Fin 512) := [n.index 2, n.index 1]

theorem Vpn.eq_of_path {n m : Vpn} (path : n.path = m.path)
    (low : n.index 0 = m.index 0) : n = m := by
  simp only [Vpn.path, List.cons.injEq, and_true] at path
  exact Vpn.eq_of_index path.1 path.2 low

def view (ram : Ram) (root : Page) (n : Vpn) : Option Leaf :=
  (lookup child ram.entries root n.path (n.index 0)).bind decode

def Node (ram : Ram) (root page : Page) : Prop :=
  Within child 2 ram.entries root page

/-- A page table is a tree of pages, and none of them is at address 0. -/
structure Table (ram : Ram) (root : Page) : Prop where
  tree : RadixTree.Tree child 2 ram.entries root
  nonzero : ∀ {page}, Node ram root page → page.addr ≠ 0

/-- The entries above the last level have no access bits, which makes them
pointers for freewalk(). The entries for addresses from `MAXVA` on are not
used. -/
structure Pointers (ram : Ram) (root : Page) : Prop where
  clear : ∀ {path page i}, path.length < 2 → descend child ram.entries root path = some page →
      ram.entries page i &&& pteV ≠ 0 → ram.entries page i &&& (pteR ||| pteW ||| pteX) = 0
  half : ∀ {i : Fin 512}, 256 ≤ i.val → ram.entries root i &&& pteV = 0

/-- kalloc() returns pages that are not in the tree. -/
structure Fresh (ram : Ram) (root : Page) : Prop where
  nodup : ram.free.Nodup
  apart : ∀ {page}, page ∈ ram.free → ¬Node ram root page
  nonzero : ∀ {page}, page ∈ ram.free → page.addr ≠ 0

def Points (ram : Ram) (root : Page) (n : Vpn) (pte : UInt64) : Prop :=
  ∃ page, descend child ram.entries root n.path = some page ∧ pte = page.entry (n.index 0)

section

variable {ram after : Ram} {root page frame : Page} {n m : Vpn} {pte va : UInt64}

theorem child_valid (valid : pte &&& pteV ≠ 0) : child pte = some (pte2pa pte) := if_pos valid

theorem child_invalid (valid : ¬(pte &&& pteV ≠ 0)) : child pte = none :=
  if_neg valid

theorem child_pte (page : Page) : child (pa2pte page.addr ||| pteV) = some page := by
  have small : pteV.toNat < 2 ^ 10 := by decide
  have valid : (pa2pte page.addr ||| pteV) &&& pteV ≠ 0 := by
    rw [← pteFlags_and _ (by decide), pteFlags_pte page small]
    decide
  rw [child_valid valid, pte2pa_pte page small]

/-! Changes to memory outside of the page table. -/

section Outside

variable (same : ∀ {page i}, Node ram root page → after.entries page i = ram.entries page i)

include same

theorem node_outside : Node after root page ↔ Node ram root page :=
  outside_within same

theorem Table.outside (table : Table ram root) : Table after root where
  tree := outside_tree same table.tree
  nonzero := fun node => table.nonzero ((node_outside same).mp node)

theorem Pointers.outside (pointers : Pointers ram root) : Pointers after root where
  clear := fun {path _ _} short reached valid => by
    rw [outside_descend same short.le] at reached
    rw [same ⟨path, short.le, reached⟩] at valid ⊢
    exact pointers.clear short reached valid
  half := fun high => by
    rw [same ⟨[], Nat.zero_le _, rfl⟩]
    exact pointers.half high

theorem view_outside : view after root = view ram root := by
  funext n
  rw [view, view, outside_lookup same le_rfl]

theorem Points.outside (points : Points ram root n pte) : Points after root n pte := by
  obtain ⟨page, found, rfl⟩ := points
  refine ⟨page, ?_, rfl⟩
  rw [outside_descend same le_rfl]
  exact found

end Outside

/-! An entry at the last level. -/

namespace Points

variable (points : Points ram root n pte)

include points

theorem view_eq : view ram root n = decode (ram.word pte) := by
  obtain ⟨page, found, rfl⟩ := points
  rw [view, lookup, found]
  rfl

theorem ne_zero (table : Table ram root) : pte ≠ 0 := by
  obtain ⟨page, found, rfl⟩ := points
  exact Page.entry_ne_zero (table.nonzero ⟨n.path, le_rfl, found⟩) _

variable (table : Table ram root) (value : UInt64)

include table

theorem node_store : Node (ram.store pte value) root page ↔ Node ram root page := by
  obtain ⟨leaf, found, rfl⟩ := points
  exact write_within (fun _ => ram.entries_store_of_ne value) table.tree found

theorem table_store : Table (ram.store pte value) root := by
  have nodes : ∀ {page}, Node (ram.store pte value) root page ↔
    Node ram root page := node_store points table value
  obtain ⟨leaf, found, rfl⟩ := points
  exact ⟨write_tree (fun _ => ram.entries_store_of_ne value) table.tree
    found, fun node => table.nonzero (nodes.mp node)⟩

theorem pointers_store (pointers : Pointers ram root) : Pointers (ram.store pte value) root := by
  obtain ⟨leaf, found, rfl⟩ := points
  have kept : ∀ {path page i}, path.length < 2 → descend child ram.entries root path = some page →
        (ram.store (leaf.entry (n.index 0)) value).entries page i = ram.entries page i := by
    intro path page i short reached
    refine ram.entries_store_of_ne value ?_
    rintro ⟨rfl, _⟩
    have same := table.tree.distinct short.le le_rfl reached found
    exact short.ne (congrArg List.length same)
  constructor
  · intro path page i short reached valid
    rw [write_descend (fun _ => ram.entries_store_of_ne value) table.tree found short.le] at reached
    rw [kept short reached] at valid ⊢
    exact pointers.clear short reached valid
  · intro i high
    rw [@kept [] root i Nat.zero_lt_two rfl]
    exact pointers.half high

theorem view_store : view (ram.store pte value) root = update (view ram root) n (decode value) := by
  obtain ⟨leaf, found, rfl⟩ := points
  have differs : Differs child n.path.length ram.entries
      (ram.store (leaf.entry (n.index 0)) value).entries root leaf
      (n.index 0) := fun _ => ram.entries_store_of_ne value
  funext m
  have short : m.path.length ≤ n.path.length := le_rfl
  by_cases same : m = n
  · rw [same, update_self, view, write_lookup_self differs table.tree found]
    exact congrArg decode (ram.entries_store leaf _ value)
  · rw [update_of_ne same, view, view, write_lookup differs table.tree found short]
    exact fun ⟨path, low⟩ => same (Vpn.eq_of_path path low)

end Points

/-! walk() without alloc. -/

def remaining (va : UInt64) : Nat → List (Fin 512)
  | 0 => []
  | level + 1 => px (level + 1) va :: remaining va level

theorem remaining_path (small : va.toNat < maxva) : remaining va 2 = (vpn va small).path := by
  rw [remaining, remaining, remaining, px_eq (by decide) va small,
    px_eq (by decide) va small]
  rfl

theorem walkFrom_read (va : UInt64) (level : Nat) (page : Page) (ram : Ram) :
    walkFrom va false level page ram =
      (match descend child ram.entries page (remaining va level) with
        | none => 0
        | some leaf => leaf.entry (px 0 va), ram) := by
  induction level generalizing page with
  | zero => rfl
  | succ level induction =>
    unfold walkFrom
    simp only [remaining, descend, Ram.entries]
    by_cases valid : ram.word (page.entry (px (level + 1) va)) &&& pteV ≠ 0
    · rw [if_pos valid, child_valid valid]
      exact induction _
    · rw [if_neg valid, child_invalid valid]
      rfl

theorem walk_read (table : Table ram root) (small : va.toNat < maxva) :
    (walk root va false ram = .ok (0, ram) ∧ view ram root (vpn va small) = none) ∨ ∃ pte,
      walk root va false ram = .ok (pte, ram) ∧ pte ≠ 0 ∧ Points ram root (vpn va small) pte := by
  have path := remaining_path small
  rw [walk, if_neg (Nat.not_le.mpr small), walkFrom_read, path, px_eq (by decide) va small]
  cases found : descend child ram.entries root (vpn va small).path with
  | none =>
    refine .inl ⟨rfl, ?_⟩
    rw [view, lookup, found]
    rfl
  | some leaf =>
    have points : Points ram root (vpn va small)
      (leaf.entry ((vpn va small).index 0)) := ⟨leaf, found, rfl⟩
    exact .inr ⟨_, rfl, points.ne_zero table, points⟩

/-! walk() with alloc. -/

/-- A page table has grown by pages from the free list, and no memory outside
of it has changed. -/
structure Extends (root : Page) (ram after : Ram) : Prop where
  table : Table after root
  fresh : Fresh after root
  pointers : Pointers ram root → Pointers after root
  taken : ∃ taken, ram.free = taken ++ after.free ∧
    ∀ {page}, Node after root page ↔ Node ram root page ∨ page ∈ taken
  kept : ∀ {a}, (∀ {page}, pgRoundDown a = page.addr →
    ¬Node ram root page ∧ page ∉ ram.free) → after.word a = ram.word a
  kernelEnd : after.kernelEnd = ram.kernelEnd

structure Grown (root : Page) (ram after : Ram) : Prop extends Extends root ram after where
  view : view after root = view ram root

theorem Extends.trans (first : Extends root ram between) (second : Extends root between after) :
    Extends root ram after where
  table := second.table
  fresh := second.fresh
  pointers := fun before => second.pointers (first.pointers before)
  taken := by
    obtain ⟨one, oneFree, oneNode⟩ := first.taken
    obtain ⟨two, twoFree, twoNode⟩ := second.taken
    refine ⟨one ++ two, ?_, fun {page} => ?_⟩
    · rw [oneFree, twoFree, List.append_assoc]
    · rw [twoNode, oneNode, List.mem_append, or_assoc]
  kept := fun {a} outside => by
    obtain ⟨one, oneFree, oneNode⟩ := first.taken
    refine (second.kept fun {page} same => ?_).trans (first.kept outside)
    have ⟨noNode, noFree⟩ := outside same
    rw [oneFree, List.mem_append, not_or] at noFree
    exact ⟨fun node => (oneNode.mp node).elim noNode noFree.1, noFree.2⟩
  kernelEnd := second.kernelEnd.trans first.kernelEnd

namespace Grown

theorem deny (table : Table ram root) (fresh : Fresh ram root)
    (denied : List Bool) : Grown root ram { ram with denied := denied } where
  table := ⟨table.tree, table.nonzero⟩
  fresh := ⟨fresh.nodup, fresh.apart, fresh.nonzero⟩
  pointers := fun before => ⟨before.clear, before.half⟩
  view := rfl
  taken := ⟨[], rfl, (or_iff_left List.not_mem_nil).symm⟩
  kept := fun _ => rfl
  kernelEnd := rfl

theorem trans (first : Grown root ram between) (second : Grown root between after) :
    Grown root ram after where
  toExtends := first.toExtends.trans second.toExtends
  view := second.view.trans first.view

end Grown

theorem Extends.store (table : Table ram root) (fresh : Fresh ram root)
    (points : Points ram root n pte) (value : UInt64) : Extends root ram (ram.store pte value) where
  table := points.table_store table value
  fresh := ⟨fresh.nodup, fun member node => fresh.apart member
    ((points.node_store table value).mp node), fresh.nonzero⟩
  pointers := points.pointers_store table value
  taken := ⟨[], rfl, fun {page} => by
    rw [points.node_store table value, or_iff_left List.not_mem_nil]⟩
  kept := fun {a} outside => by
    obtain ⟨leaf, found, rfl⟩ := points
    refine update_of_ne (fun same => ?_) ..
    rw [same] at outside
    exact (outside (leaf.entry_page _)).1 ⟨n.path, le_rfl, found⟩
  kernelEnd := rfl

theorem kalloc_spec (ram : Ram) : (∃ denied, ram.kalloc = (none, { ram with denied := denied })) ∨
      ∃ page free denied, ram.free = page :: free ∧ ram.kalloc = (some page, Ram.memset
          { ram with denied := denied, free := free } page 0x0505050505050505) := by
  obtain ⟨word, free, denied, kernelEnd⟩ := ram
  rcases denied with _ | ⟨_ | _, denied⟩
  · cases free with
    | nil => exact .inl ⟨[], rfl⟩
    | cons page free => exact .inr ⟨page, free, [], rfl, rfl⟩
  · cases free with
    | nil => exact .inl ⟨denied, rfl⟩
    | cons page free => exact .inr ⟨page, free, denied, rfl, rfl⟩
  · exact .inl ⟨denied, rfl⟩

theorem pointer_pte (page : Page) :
    (pa2pte page.addr ||| pteV) &&& (pteR ||| pteW ||| pteX) = 0 := by
  rw [← pteFlags_and _ (by decide), pteFlags_pte page (by decide)]
  decide

theorem Grown.link (after : Ram) (i : Fin 512) (table : Table ram root) (isFresh : Fresh ram root)
    (bound : path.length < 2) (low : path = [] → i.val < 256)
    (found : descend child ram.entries root path = some target)
    (absent : child (ram.entries target i) = none) (first : ram.free = fresh :: free)
    (frees : after.free = free) (kernelEnd : after.kernelEnd = ram.kernelEnd)
    (words : ∀ {a}, pgRoundDown a ≠ fresh.addr → a ≠ target.entry i → after.word a = ram.word a)
    (linked : after.word (target.entry i) = pa2pte fresh.addr ||| pteV)
    (cleared : ∀ j, after.entries fresh j = 0) :
    Grown root ram after ∧ descend child after.entries root (path ++ [i]) = some fresh := by
  have member : fresh ∈ ram.free := by
    rw [first]
    exact List.mem_cons_self
  have apart : ¬Node ram root fresh := isFresh.apart member
  have different : ∀ {page}, Node ram root page → page ≠ fresh := by
    rintro page node rfl
    exact apart node
  have differs : Differs child 2 ram.entries after.entries root target i := by
    intro page j node other
    refine words ?_ fun same => other (Page.entry_inj same)
    rw [page.entry_page]
    exact fun same => different node (Page.eq_of_toNat (congrArg UInt64.toNat same))
  have link : child (after.entries target i) = some fresh := by
    rw [Ram.entries, linked, child_pte]
  have empty : ∀ j, child (after.entries fresh j) = none := by
    intro j
    rw [cleared j]
    rfl
  have nodes : ∀ {page}, Node after root page ↔ Node ram root page ∨ page = fresh :=
    link_within differs table.tree bound found absent link empty
  have nodup : (fresh :: free).Nodup := first ▸ isFresh.nodup
  have keeps : ∀ {page}, page ∈ free → page ∈ ram.free := by
    intro page member
    rw [first]
    exact List.mem_cons_of_mem _ member
  refine ⟨{
    table := ⟨link_tree differs table.tree bound found absent link apart empty, fun node => ?_⟩
    fresh := ⟨?_, fun {page} remains node => ?_, fun {page} remains => ?_⟩
    pointers := fun before => ⟨fun {other page j} short reached valid => ?_, fun {j} high => ?_⟩
    taken := ⟨[fresh], ?_, ?_⟩
    kept := fun {a} outside => ?_
    kernelEnd := kernelEnd
    view := ?_ }, link_descend_self differs table.tree bound found link⟩
  · rcases nodes.mp node with old | rfl
    · exact table.nonzero old
    · exact isFresh.nonzero member
  · rw [frees]
    exact (List.nodup_cons.mp nodup).2
  · rw [frees] at remains
    rcases nodes.mp node with old | rfl
    · exact isFresh.apart (keeps remains) old
    · exact (List.nodup_cons.mp nodup).1 remains
  · rw [frees] at remains
    exact isFresh.nonzero (keeps remains)
  · by_cases new : other = path ++ [i]
    · rw [new, link_descend_self differs table.tree bound found link] at reached
      cases reached
      rw [cleared j] at valid
      exact absurd rfl valid
    · rw [link_descend differs table.tree bound found absent link empty short.le new] at reached
      by_cases here : page = target ∧ j = i
      · rw [here.1, here.2, Ram.entries, linked]
        exact pointer_pte fresh
      · rw [differs ⟨other, short.le, reached⟩ here] at valid ⊢
        exact before.clear short reached valid
  · rw [differs ⟨[], Nat.zero_le _, rfl⟩]
    · exact before.half high
    · rintro ⟨same, rfl⟩
      rw [← same] at found
      exact Nat.not_lt.mpr high (low (table.tree.distinct bound.le (Nat.zero_le _) found rfl))
  · rw [first, frees]
    rfl
  · intro page
    rw [nodes, List.mem_singleton]
  · refine words (fun same => (outside same).2 member) ?_
    rintro rfl
    exact (outside (target.entry_page i)).1 ⟨path, bound.le, found⟩
  · funext n
    rw [Vm.view, Vm.view, lookup, lookup]
    by_cases same : n.path = path ++ [i]
    · have old : descend child ram.entries root n.path = none := by
        rw [same, descend_concat, found]
        exact absent
      rw [old, same, link_descend_self differs table.tree bound found link]
      change decode (after.entries fresh _) = none
      rw [cleared]
      rfl
    · rw [link_descend differs table.tree bound found absent link empty le_rfl same]
      cases reached : descend child ram.entries root n.path with
      | none => rfl
      | some leaf =>
        refine congrArg decode (differs ⟨n.path, le_rfl, reached⟩ ?_)
        rintro ⟨rfl, _⟩
        have lengths := congrArg List.length (table.tree.distinct le_rfl bound.le reached found)
        exact bound.ne lengths.symm

theorem px_top (small : va.toNat < maxva) : (px 2 va).val < 256 := by
  rw [px_eq (by decide) va small]
  change va.toNat / 4096 / 512 ^ 2 % 512 < 256
  rw [maxva] at small
  omega

theorem walkFrom_alloc (va : UInt64) (level : Nat) (path : List (Fin 512))
    (table : Table ram root) (fresh : Fresh ram root) (small : va.toNat < maxva)
    (levels : path.length + level = 2) (found : descend child ram.entries root path = some page) :
    ∃ pte after, walkFrom va true level page ram = (pte, after) ∧ Grown root ram after ∧
      (pte = 0 ∨ ∃ leaf, descend child after.entries root (path ++ remaining va level) = some leaf ∧
        pte = leaf.entry (px 0 va)) := by
  -- by induction on the level; the path to the page grows
  induction level generalizing path page ram with
  | zero =>
    refine ⟨_, ram, rfl, .deny table fresh ram.denied, .inr ⟨page, ?_, rfl⟩⟩
    rw [remaining, List.append_nil]
    exact found
  | succ level induction =>
    have next : ∀ i, (path ++ [i]).length + level = 2 := by
      intro i
      rw [List.length_append, List.length_singleton]
      omega
    have shift : ∀ {some}, path ++ remaining va (level + 1) = some ↔
        path ++ [px (level + 1) va] ++ remaining va level = some := by
      intro some
      rw [remaining, List.append_assoc, List.singleton_append]
    rw [shift.mpr rfl]
    unfold walkFrom
    dsimp only
    by_cases valid : ram.word (page.entry (px (level + 1) va)) &&& pteV ≠ 0
    · rw [if_pos valid]
      refine induction _ table fresh (next _) ?_
      rw [descend_concat, found]
      exact child_valid valid
    · rw [if_neg valid, if_pos rfl]
      rcases kalloc_spec ram with ⟨denied, failed⟩ | ⟨new, free, denied, first, took⟩
      · rw [failed]
        exact ⟨0, _, rfl, .deny table fresh denied, .inl rfl⟩
      · rw [took]
        dsimp only
        have node : Node ram root page := ⟨path, by omega, found⟩
        have apart : page ≠ new := by
          rintro rfl
          refine fresh.apart ?_ node
          rw [first]
          exact List.mem_cons_self
        have ⟨grown, reached⟩ := Grown.link
          (((Ram.memset { ram with denied := denied, free := free } new
            0x0505050505050505).memset new 0).store
            (page.entry (px (level + 1) va)) (pa2pte new.addr ||| pteV))
          (px (level + 1) va) table fresh (by omega) ?_ found
          (child_invalid valid) first rfl rfl ?_ ?_ ?_
        · obtain ⟨pte, after, done, more, result⟩ :=
            induction _ grown.table grown.fresh (next _) reached
          exact ⟨pte, after, done, grown.trans more, result⟩
        · rintro rfl
          obtain rfl : level = 1 := Nat.succ.inj ((Nat.zero_add _).symm.trans levels)
          exact px_top small
        · intro a outside other
          exact (update_of_ne other ..).trans ((if_neg outside).trans (if_neg outside))
        · exact update_self ..
        · intro j
          rw [Ram.entries_store_of_ne _ _ fun same => apart same.1.symm]
          exact Ram.entries_memset ..

/-- walk() with alloc changes no mapping. -/
theorem walk_alloc (table : Table ram root) (fresh : Fresh ram root) (small : va.toNat < maxva) :
    ∃ pte after, walk root va true ram = .ok (pte, after) ∧ Grown root ram after ∧
      (pte = 0 ∨ pte ≠ 0 ∧ Points after root (vpn va small) pte) := by
  obtain ⟨pte, after, done, grown, result⟩ :=
    walkFrom_alloc va 2 [] table fresh small rfl rfl
  rw [walk, if_neg (Nat.not_le.mpr small), done]
  refine ⟨pte, after, rfl, grown, result.imp_right ?_⟩
  rintro ⟨leaf, found, rfl⟩
  rw [List.nil_append, remaining_path small] at found
  have points : Points after root (vpn va small) (leaf.entry (px 0 va)) :=
    ⟨leaf, found, congrArg leaf.entry (px_eq (by decide) va small)⟩
  exact ⟨points.ne_zero grown.table, points⟩

end

end Xv6Lottery.Vm
