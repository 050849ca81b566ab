import Xv6Lottery.Vm.FiniteMap
import Xv6Lottery.Vm.Grow

/-! freewalk(), and the page tables that proc.c makes and frees. -/

namespace Xv6Lottery.Vm

open RadixTree Function

def Leafless (ram : Ram) : Nat → Page → Prop
  | 0, _ => False
  | levels + 1, page => ∀ i, ram.entries page i &&& pteV ≠ 0 →
      ram.entries page i &&& (pteR ||| pteW ||| pteX) = 0 ∧
        Leafless ram levels (pte2pa (ram.entries page i))

structure Freed (freed touched : Page → Prop) (ram after : Ram) : Prop where
  free : ∀ {page}, page ∈ after.free ↔ page ∈ ram.free ∨ freed page
  nodup : after.free.Nodup
  kept : ∀ {a}, (∀ {page}, pgRoundDown a = page.addr → ¬touched page) → after.word a = ram.word a
  kernelEnd : after.kernelEnd = ram.kernelEnd

/-- The pages of a table of some levels below its root. -/
def Below (levels : Nat) (ram : Ram) (page node : Page) : Prop :=
  RadixTree.Within child levels ram.entries page node

section

variable {ram between after : Ram} {root page other : Page} {levels : Nat} {i : Fin 512}

theorem child_eq_some : child pte = some page ↔ pte &&& pteV ≠ 0 ∧ pte2pa pte = page := by
  unfold child
  split
  next valid =>
    rw [Option.some.injEq]
    exact ⟨fun same => ⟨valid, same⟩, And.right⟩
  next invalid => exact iff_of_false nofun fun both => invalid both.1

theorem Leafless.outside (leafless : Leafless ram (levels + 1) page)
    (same : ∀ {node i}, Below levels ram page node → after.entries node i = ram.entries node i) :
    Leafless after (levels + 1) page := by
  induction levels generalizing page with
  | zero =>
    intro i valid
    rw [same within_root] at valid
    exact (leafless i valid).2.elim
  | succ levels induction =>
    intro i valid
    rw [same within_root] at valid ⊢
    have ⟨clear, rest⟩ := leafless i valid
    refine ⟨clear, induction rest fun inside => same ?_⟩
    exact within_succ.mpr (.inr ⟨i, _, child_valid valid, inside⟩)

/-! freewalk() -/

/-- What freewalk() needs of a table: its pages are in use, once. -/
structure Walkable (levels : Nat) (ram : Ram) (page : Page) : Prop where
  tree : RadixTree.Tree child levels ram.entries page
  leafless : Leafless ram (levels + 1) page
  inRam : ∀ {node}, Below levels ram page node → InRam ram node
  used : ∀ {node}, Below levels ram page node → node ∉ ram.free

theorem Walkable.outside (walkable : Walkable levels ram page)
    (same : ∀ {node i}, Below levels ram page node → after.entries node i = ram.entries node i)
    (kernelEnd : after.kernelEnd = ram.kernelEnd)
    (used : ∀ {node}, Below levels ram page node → node ∉ after.free) :
    Walkable levels after page where
  tree := outside_tree same walkable.tree
  leafless := walkable.leafless.outside same
  inRam := fun inside => (inRam_congr kernelEnd).mpr
    (walkable.inRam ((outside_within same).mp inside))
  used := fun inside => used ((outside_within same).mp inside)

def Behind (levels : Nat) (ram : Ram) (page : Page)
    (entries : List (Fin 512)) (node : Page) : Prop :=
  ∃ i ∈ entries, ∃ next, child (ram.entries page i) = some next ∧ Below levels ram next node

/-- The tables behind some entries of a page are apart from each other and from
the page. -/
structure Branches (levels : Nat) (ram : Ram) (page : Page) (entries : List (Fin 512)) : Prop where
  clear : ∀ {i}, i ∈ entries → ram.entries page i &&& pteV ≠ 0 →
    ram.entries page i &&& (pteR ||| pteW ||| pteX) = 0
  walkable : ∀ {i next}, i ∈ entries →
    child (ram.entries page i) = some next → Walkable levels ram next
  apart : ¬Behind levels ram page entries page
  disjoint : ∀ {i j next last node}, i ∈ entries → j ∈ entries →
    child (ram.entries page i) = some next → child (ram.entries page j) = some last →
        Below levels ram next node → Below levels ram last node → i = j

theorem behind_cons :
    Behind levels ram page (i :: rest) node ↔ (∃ next, child (ram.entries page i) = some next ∧
        Below levels ram next node) ∨ Behind levels ram page rest node := by
  simp only [Behind, List.mem_cons, exists_eq_or_imp]

theorem Branches.tail (branches : Branches levels ram page (i :: rest)) :
    Branches levels ram page rest where
  clear := fun member => branches.clear (List.mem_cons_of_mem _ member)
  walkable := fun member => branches.walkable (List.mem_cons_of_mem _ member)
  apart := fun behind => branches.apart (behind_cons.mpr (.inr behind))
  disjoint := fun first second => branches.disjoint
    (List.mem_cons_of_mem _ first) (List.mem_cons_of_mem _ second)

theorem Branches.outside (branches : Branches levels ram page rest)
    (same : ∀ {i}, i ∈ rest → after.entries page i = ram.entries page i)
    (below : ∀ {node i}, Behind levels ram page rest node → after.entries node i =
      ram.entries node i) (kernelEnd : after.kernelEnd = ram.kernelEnd)
    (used : ∀ {node}, Behind levels ram page rest node → node ∉ after.free) :
    Branches levels after page rest ∧ ∀ {node}, Behind levels after page rest node ↔
      Behind levels ram page rest node := by
  have inside : ∀ {i next}, i ∈ rest → child (ram.entries page i) = some next → ∀ {node},
        Below levels after next node ↔ Below levels ram next node := by
    intro i next member link node
    exact outside_within fun isBelow => below ⟨i, member, next, link, isBelow⟩
  have behind : ∀ {node}, Behind levels after page rest node ↔
      Behind levels ram page rest node := by
    intro node
    refine exists_congr fun i => and_congr_right fun member => ?_
    rw [same member]
    exact exists_congr fun next => and_congr_right fun link =>
      inside member link
  refine ⟨{
    clear := fun member => ?_
    walkable := fun {i next} member link => ?_
    apart := fun isBehind => branches.apart (behind.mp isBehind)
    disjoint := fun {i j next last node} first second link theirs inNext inLast => ?_ }, behind⟩
  · rw [same member]
    exact branches.clear member
  · rw [same member] at link
    exact (branches.walkable member link).outside
      (fun isBelow => below ⟨i, member, next, link, isBelow⟩) kernelEnd
      fun isBelow => used ⟨i, member, next, link, isBelow⟩
  · rw [same first] at link
    rw [same second] at theirs
    exact branches.disjoint first second link theirs
      ((inside first link).mp inNext) ((inside second theirs).mp inLast)

theorem freewalkLoop_spec (walks : ∀ {ram page}, Walkable levels ram page → ram.free.Nodup →
      ∃ after, freewalk (levels + 1) page ram = .ok after ∧
      Freed (Below levels ram page) (Below levels ram page) ram after) (entries : List (Fin 512))
    (each : entries.Nodup) (nodup : ram.free.Nodup) (branches : Branches levels ram page entries) :
    ∃ after, entries.foldlM (freewalkEntry (freewalk (levels + 1)) page) ram = .ok after ∧
      Freed (Behind levels ram page entries) (fun node => node = page ∨
        Behind levels ram page entries node) ram after := by
  -- by induction on the entries; the tables behind the first ones are gone
  induction entries generalizing ram with
  | nil =>
    refine ⟨ram, rfl, ?_, nodup, fun _ => rfl, rfl⟩
    intro node
    refine (or_iff_left ?_).symm
    rintro ⟨i, member, _⟩
    exact absurd member List.not_mem_nil
  | cons i rest induction =>
    have ⟨new, others⟩ := List.nodup_cons.mp each
    rw [List.foldlM_cons]
    by_cases valid : ram.word (page.entry i) &&& pteV ≠ 0
    · have link : child (ram.entries page i) =
        some (pte2pa (ram.entries page i)) := child_valid valid
      have clear := branches.clear List.mem_cons_self valid
      have walkable := branches.walkable List.mem_cons_self link
      obtain ⟨between, done, freed⟩ := walks walkable nodup
      have entry : freewalkEntry (freewalk (levels + 1)) page ram i =
          .ok (between.store (page.entry i) 0) := by
        unfold freewalkEntry
        rw [if_pos ⟨valid, clear⟩]
        change (freewalk _ (pte2pa (ram.entries page i)) ram >>= _) = _
        rw [done]
        rfl
      have here : ∀ {node}, Below levels ram (pte2pa (ram.entries page i))
          node → Behind levels ram page (i :: rest) node := fun inside =>
        ⟨i, List.mem_cons_self, _, link, inside⟩
      have rootApart : ¬Below levels ram (pte2pa (ram.entries page i))
        page := fun inside => branches.apart (here inside)
      -- the pages of the other tables are not touched
      have same : ∀ {node j}, ¬Below levels ram
          (pte2pa (ram.entries page i)) node → ¬(node = page ∧ j = i) →
            (between.store (page.entry i) 0).entries node j = ram.entries node j := by
        intro node j apart differs
        rw [between.entries_store_of_ne 0 differs]
        refine freed.kept fun {other} equal inside => apart ?_
        rw [node.entry_page] at equal
        rw [Page.eq_of_addr equal]
        exact inside
      have separate : ∀ {node}, Behind levels ram page rest node →
          ¬Below levels ram (pte2pa (ram.entries page i)) node := by
        rintro node ⟨j, member, last, theirs, inLast⟩ inside
        have equal := branches.disjoint List.mem_cons_self
          (List.mem_cons_of_mem _ member) link theirs inside inLast
        exact new (equal ▸ member)
      obtain ⟨remaining, behind⟩ := branches.tail.outside
        (fun {j} member => same rootApart fun equal =>
          new (equal.2 ▸ member))
        (fun isBehind => same (separate isBehind) fun equal =>
          branches.tail.apart (equal.1 ▸ isBehind))
        freed.kernelEnd
        (fun {node} isBehind member => by
          rcases freed.free.mp member with old | inside
          · obtain ⟨j, there, last, theirs, inLast⟩ := isBehind
            exact (branches.tail.walkable there theirs).used inLast old
          · exact separate isBehind inside)
      obtain ⟨after, finished, result⟩ := @induction
        (between.store (page.entry i) 0) others freed.nodup remaining
      refine ⟨after, ?_, ?_, result.nodup, fun {a} outside => ?_,
        result.kernelEnd.trans freed.kernelEnd⟩
      · rw [entry]
        exact finished
      · intro node
        rw [result.free, behind, behind_cons]
        change node ∈ between.free ∨ _ ↔ _
        rw [freed.free, or_assoc]
        refine or_congr_right (or_congr_left ?_)
        constructor
        · exact fun inside => ⟨_, link, inside⟩
        · rintro ⟨next, theirs, inside⟩
          cases link.symm.trans theirs
          exact inside
      · have differs : a ≠ page.entry i := by
          rintro rfl
          exact outside (page.entry_page i) (.inl rfl)
        rw [result.kept]
        · refine (update_of_ne differs ..).trans (freed.kept ?_)
          exact fun equal inside => outside equal (.inr (here inside))
        · intro other equal touched
          refine outside equal (touched.imp_right fun isBehind => ?_)
          exact behind_cons.mpr (.inr (behind.mp isBehind))
    · have entry : freewalkEntry (freewalk (levels + 1)) page ram i = .ok ram := by
        unfold freewalkEntry
        rw [if_neg fun both => valid both.1, if_neg valid]
      have behind : ∀ {node}, Behind levels ram page (i :: rest) node ↔
          Behind levels ram page rest node := by
        intro node
        rw [behind_cons]
        refine or_iff_right ?_
        rintro ⟨next, link, _⟩
        exact valid (child_eq_some.mp link).1
      obtain ⟨after, finished, result⟩ := induction others nodup branches.tail
      refine ⟨after, ?_, ?_, result.nodup, fun outside => ?_, result.kernelEnd⟩
      · rw [entry]
        exact finished
      · intro node
        rw [result.free, behind]
      · exact result.kept fun equal touched => outside equal (touched.imp_right behind.mpr)

theorem freewalkLoop_empty {walk : Page → Ram → Except Panic Ram} (entries : List (Fin 512))
    (empty : ∀ i, ¬(ram.entries page i &&& pteV ≠ 0)) :
    entries.foldlM (freewalkEntry walk page) ram = .ok ram := by
  induction entries with
  | nil => rfl
  | cons i rest induction =>
    have entry : freewalkEntry walk page ram i = .ok ram := by
      unfold freewalkEntry
      exact (if_neg fun both => empty i both.1).trans (if_neg (empty i))
    rw [List.foldlM_cons, entry]
    exact induction

theorem Freed.kfree {nodes rest : Page → Prop}
    (freed : Freed rest (fun node => node = page ∨ rest node) ram between)
    (inRam : InRam ram page) (used : page ∉ ram.free) (apart : ¬rest page)
    (whole : ∀ {node}, nodes node ↔ node = page ∨ rest node) :
    ∃ after, between.kfree page = .ok after ∧ Freed nodes nodes ram after := by
  refine ⟨_, kfree_eq ((inRam_congr freed.kernelEnd).mpr inRam), ?_, ?_,
    fun {a} outside => ?_, freed.kernelEnd⟩
  · intro node
    rw [whole, List.mem_cons, freed.free]
    exact or_left_comm
  · refine List.nodup_cons.mpr ⟨fun member => ?_, freed.nodup⟩
    exact (freed.free.mp member).elim used apart
  · have differs : pgRoundDown a ≠ page.addr := fun equal =>
      outside equal (whole.mpr (.inl rfl))
    refine (if_neg differs).trans (freed.kept fun equal touched => ?_)
    exact outside equal (whole.mpr touched)

theorem freewalk_spec (walkable : Walkable levels ram page) (nodup : ram.free.Nodup) :
    ∃ after, freewalk (levels + 1) page ram = .ok after ∧
      Freed (Below levels ram page) (Below levels ram page) ram after := by
  -- by induction on the levels
  induction levels generalizing ram page with
  | zero =>
    have empty : ∀ i, ¬(ram.entries page i &&& pteV ≠ 0) := fun i valid =>
      (walkable.leafless i valid).2
    have start : Freed (fun _ => False) (fun node => node = page ∨ False) ram ram :=
      ⟨(or_iff_left not_false).symm, nodup, fun _ => rfl, rfl⟩
    have whole : ∀ {node}, Below 0 ram page node ↔ node = page ∨ False := by
      intro node
      rw [or_false]
      constructor
      · rintro ⟨path, short, reached⟩
        rw [List.length_eq_zero_iff.mp (Nat.le_zero.mp short)] at reached
        exact (Option.some.inj reached).symm
      · rintro rfl
        exact within_root
    obtain ⟨after, done, freed⟩ := start.kfree (walkable.inRam within_root)
      (walkable.used within_root) not_false whole
    refine ⟨after, ?_, freed⟩
    rw [freewalk, freewalkLoop_empty _ empty]
    exact done
  | succ levels induction =>
    have each : ∀ {i next}, child (ram.entries page i) = some next →
        ∀ {node}, Below levels ram next node →
          Below (levels + 1) ram page node := fun link _ inside =>
      within_succ.mpr (.inr ⟨_, _, link, inside⟩)
    have branches : Branches levels ram page (List.finRange 512) := {
      clear := fun {i} _ valid => (walkable.leafless i valid).1
      walkable := fun {i next} _ link => {
        tree := walkable.tree.below link
        leafless := by
          have ⟨valid, same⟩ := child_eq_some.mp link
          rw [← same]
          exact (walkable.leafless i valid).2
        inRam := fun inside => walkable.inRam (each link inside)
        used := fun inside => walkable.used (each link inside) }
      apart := by
        rintro ⟨i, _, next, link, inside⟩
        exact walkable.tree.root_apart link inside
      disjoint := fun _ _ link theirs =>
        walkable.tree.disjoint link theirs }
    obtain ⟨between, looped, freed⟩ := freewalkLoop_spec induction
      (List.finRange 512) (List.nodup_finRange 512) nodup branches
    obtain ⟨after, done, result⟩ := freed.kfree
      (walkable.inRam within_root) (walkable.used within_root)
      branches.apart fun {node} => within_succ.trans (or_congr_right (exists_congr fun i =>
          (and_iff_right (List.mem_finRange i)).symm))
    refine ⟨after, ?_, result⟩
    rw [freewalk, looped]
    exact done

end

/-! uvmcreate() and uvmfree() -/

structure Allocator (ram : Ram) : Prop where
  nodup : ram.free.Nodup
  inRam : ∀ {page}, page ∈ ram.free → InRam ram page
  kernelEnd : ram.kernelEnd ≠ 0

/-- The pages of an address space, or the free pages, are all free. -/
structure Released (pool : Page → Prop) (ram after : Ram) : Prop where
  allocator : Allocator after
  free : ∀ {page}, page ∈ after.free ↔ pool page
  outside : ∀ {a}, (∀ {page}, pgRoundDown a = page.addr → ¬pool page) → after.word a = ram.word a
  kernelEnd : after.kernelEnd = ram.kernelEnd

/-- An address space is new, and its pages were free. -/
structure Created (root : Page) (ram after : Ram) : Prop where
  space : Space after root 0
  pool : ∀ {page}, Pool after root 0 page ↔ page ∈ ram.free
  outside : ∀ {a}, (∀ {page}, pgRoundDown a = page.addr →
    page ∉ ram.free) → after.word a = ram.word a
  kernelEnd : after.kernelEnd = ram.kernelEnd

section

variable {ram between after : Ram} {root page : Page} {count : Nat} {n : Vpn} {va perm sz : UInt64}

theorem Created.moves (created : Created root ram between)
    (moves : Moves root between 0 after 0) : Created root ram after where
  space := moves.space
  pool := moves.pool.trans created.pool
  outside := fun out => by
    rw [moves.outside fun same pool => out same (created.pool.mp pool), created.outside out]
  kernelEnd := moves.kernelEnd.trans created.kernelEnd

theorem Released.extend {pool others : Page → Prop} (same : ∀ {page}, others page ↔ pool page)
    (outside : ∀ {a}, (∀ {page}, pgRoundDown a = page.addr → ¬pool page) → between.word a =
      ram.word a) (kernelEnd : between.kernelEnd = ram.kernelEnd)
    (released : Released others between after) : Released pool ram after where
  allocator := released.allocator
  free := released.free.trans same
  outside := fun out => by
    rw [released.outside fun equal isOther => out equal (same.mp isOther), outside out]
  kernelEnd := released.kernelEnd.trans kernelEnd

theorem Released.moves {final : Nat} (moves : Moves root ram count between final)
    (released : Released (Pool between root final) between after) :
    Released (Pool ram root count) ram after :=
  released.extend moves.pool moves.outside moves.kernelEnd

theorem Released.created (created : Created root ram between)
    (released : Released (Pool between root 0) between after) : Released (· ∈ ram.free) ram after :=
  released.extend created.pool created.outside created.kernelEnd

theorem Released.deny (allocator : Allocator ram) (denied : List Bool) :
    Released (· ∈ ram.free) ram { ram with denied := denied } :=
  ⟨⟨allocator.nodup, allocator.inRam, allocator.kernelEnd⟩, Iff.rfl, fun _ => rfl, rfl⟩

theorem Allocator.nonzero (allocator : Allocator ram) (inRam : InRam ram page) : page.addr ≠ 0 := by
  intro zero
  have low := inRam.1
  rw [zero] at low
  exact allocator.kernelEnd (UInt64.toNat_inj.mp (Nat.le_zero.mp (UInt64.le_iff_toNat_le.mp low)))

theorem frame_zero : ¬Frame ram root 0 page := by
  rintro ⟨n, less, _⟩
  exact absurd less (Nat.not_lt_zero _)

theorem uvmcreate_spec (allocator : Allocator ram) :
    ∃ result after, uvmcreate ram = (result, after) ∧ match result with
      | none => Released (· ∈ ram.free) ram after
      | some root => Created root ram after ∧ ∀ n, view after root n = none := by
  unfold uvmcreate
  rcases kalloc_spec ram with ⟨denied, failed⟩ | ⟨root, free, denied, first, took⟩
  · rw [failed]
    exact ⟨none, _, rfl, .deny allocator denied⟩
  · rw [took]
    refine ⟨some root, _, rfl, ?_⟩
    generalize news : (Ram.memset { ram with denied := denied, free := free }
      root 0x0505050505050505).memset root 0 = after
    have zero : ∀ i, after.entries root i = 0 := fun i => by
      rw [← news]
      exact Ram.entries_memset ..
    have frees : after.free = free := by rw [← news]; rfl
    have ends : after.kernelEnd = ram.kernelEnd := by rw [← news]; rfl
    have views : ∀ n, view after root n = none := view_empty zero
    have nodes : ∀ {page}, Node after root page ↔ page = root :=
      node_empty zero
    have nodup : (root :: free).Nodup := first ▸ allocator.nodup
    have members : ∀ {page}, page ∈ ram.free ↔ page = root ∨ page ∈ free := by
      intro page
      rw [first, List.mem_cons]
    have inRam : ∀ {page}, page = root ∨ page ∈ free → InRam after page :=
      fun known => (inRam_congr ends).mpr (allocator.inRam (members.mpr known))
    have known : ∀ {page}, Pool after root 0 page ↔ page = root ∨ page ∈ free := by
      intro page
      rw [Pool, nodes, frees, or_iff_left frame_zero, or_comm]
    have nonzero : ∀ {page}, page = root ∨ page ∈ free → page.addr ≠ 0 :=
      fun is => allocator.nonzero (allocator.inRam (members.mpr is))
    refine ⟨{
      space := {
        table := .of_empty zero (nonzero (.inl rfl))
        fresh := ⟨?_, ?_, ?_⟩
        pointers := ⟨?_, ?_⟩
        bound := Nat.zero_le _
        user := fun n less => absurd less (Nat.not_lt_zero _)
        nothing := fun n _ _ => views n
        apart := fun frame => (frame_zero frame).elim
        distinct := fun less => absurd less (Nat.not_lt_zero _)
        inRam := fun pool => inRam (known.mp pool)
        kernelEnd := by
          rw [ends]
          exact allocator.kernelEnd }
      pool := known.trans members.symm
      outside := fun {a} out => ?_
      kernelEnd := ends }, views⟩
    · rw [frees]
      exact (List.nodup_cons.mp nodup).2
    · intro page member node
      rw [frees, nodes.mp node] at member
      exact (List.nodup_cons.mp nodup).1 member
    · intro page member
      rw [frees] at member
      exact nonzero (.inr member)
    · intro path page i short reached valid
      cases path with
      | nil =>
        cases reached
        rw [zero i] at valid
        exact absurd rfl valid
      | cons j path => cases (descend_empty zero j path).symm.trans reached
    · intro i _
      rw [zero i]
      rfl
    · have apart : pgRoundDown a ≠ root.addr := fun same =>
        out same (members.mpr (.inl rfl))
      rw [← news]
      exact memset_filled ram root apart

theorem Vpn.exists_index (i j k : Fin 512) (low : i.val < 256) :
    ∃ n : Vpn, n.path = [i, j] ∧ n.index 0 = k := by
  have middle := j.isLt
  have last := k.isLt
  have inside : i.val * 2 ^ 18 + j.val * 2 ^ 9 + k.val < maxva / pgsize := by
    change _ < 2 ^ 26
    omega
  refine ⟨⟨_, inside⟩, ?_, ?_⟩
  · refine congrArg₂ List.cons (Fin.ext ?_) (congrArg (fun index => [index]) (Fin.ext ?_))
    · change (i.val * 2 ^ 18 + j.val * 2 ^ 9 + k.val) / 512 ^ 2 % 512 = _
      omega
    · change (i.val * 2 ^ 18 + j.val * 2 ^ 9 + k.val) / 512 ^ 1 % 512 = _
      omega
  · refine Fin.ext ?_
    change (i.val * 2 ^ 18 + j.val * 2 ^ 9 + k.val) / 512 ^ 0 % 512 = _
    omega

theorem Space.walkable (space : Space ram root 0)
    (nothing : ∀ n, view ram root n = none) : Walkable 2 ram root where
  tree := space.table.tree
  leafless := by
    intro i first
    have low : i.val < 256 := by
      refine Nat.lt_of_not_le fun high => first ?_
      exact space.pointers.half high
    have second : descend child ram.entries root [i] = some (pte2pa (ram.entries root i)) := by
      rw [descend, child_valid first]
      rfl
    refine ⟨@Pointers.clear _ _ space.pointers [] root i Nat.zero_lt_two
      rfl first, fun j middle => ?_⟩
    have third : descend child ram.entries root [i, j] =
        some (pte2pa (ram.entries (pte2pa (ram.entries root i)) j)) := by
      have path : [i, j] = [i] ++ [j] := rfl
      rw [path, descend_concat, second]
      exact child_valid middle
    refine ⟨@Pointers.clear _ _ space.pointers [i] _ j Nat.one_lt_two
      second middle, fun k last => ?_⟩
    obtain ⟨n, path, index⟩ := Vpn.exists_index i j k low
    have unmapped := nothing n
    rw [view, lookup, path, third, index] at unmapped
    exact absurd (decode_none_iff.mp unmapped) last
  inRam := fun node => space.inRam (.inr (.inl node))
  used := fun node member => space.fresh.apart member node

theorem Space.freewalk (space : Space ram root 0) (nothing : ∀ n, view ram root n = none) :
    ∃ after, freewalk 3 root ram = .ok after ∧ Released (Pool ram root 0) ram after := by
  obtain ⟨after, done, freed⟩ := freewalk_spec (space.walkable nothing) space.fresh.nodup
  have free : ∀ {page}, page ∈ after.free ↔ Pool ram root 0 page := by
    intro page
    rw [freed.free, Pool, or_iff_left frame_zero]
    rfl
  refine ⟨after, done, ⟨freed.nodup, fun member => ?_, ?_⟩, free, fun out =>
    freed.kept fun same node => out same (.inr (.inl node)), freed.kernelEnd⟩
  · exact (inRam_congr freed.kernelEnd).mpr (space.inRam (free.mp member))
  · rw [freed.kernelEnd]
    exact space.kernelEnd

theorem uvmfree_spec (space : Space ram root count) (sized : Sized sz count)
    (top : ∀ n, trapframePage ≤ n → view ram root n = none) :
    ∃ after, uvmfree root sz ram = .ok after ∧ Released (Pool ram root count) ram after := by
  have bound := space.count_small
  have finish : ∀ {between}, Changes root 0 ram count between 0 → ∃ after,
      Vm.freewalk 3 root between = .ok after ∧ Released (Pool ram root count) ram after := by
    intro between changes
    obtain ⟨after, walked, released⟩ := changes.space.freewalk fun n => by
      by_cases high : trapframePage ≤ n
      · rw [changes.above n high]
        exact top n high
      · exact changes.space.nothing n (Nat.zero_le _) (not_le.mp high)
    exact ⟨after, walked, .moves changes.toMoves released⟩
  unfold uvmfree
  by_cases some : sz > 0
  · have many : (pgRoundUp sz / 4096).toNat = count - 0 := by
      have unit : (4096 : UInt64).toNat = 4096 := rfl
      rw [UInt64.toNat_div, sized.roundUp (by omega), unit]
      omega
    obtain ⟨between, done, changes⟩ := @Space.unmap ram root count 0 0
      (pgRoundUp sz / 4096) space (Nat.zero_le _) rfl many
    rw [if_pos some, done]
    dsimp only [bind, Except.bind]
    exact finish changes
  · rw [if_neg some]
    rw [gt_iff_lt, UInt64.lt_iff_toNat_lt] at some
    have zero : sz.toNat = 0 := Nat.eq_zero_of_not_pos some
    have tight := sized.tight
    obtain rfl : count = 0 := by omega
    exact finish (.refl space)

/-! The pages above user memory. -/

theorem Space.map_top (space : Space ram root count) (high : trapframePage ≤ n)
    (unmapped : view ram root n = none) (frame : Page) (small : perm.toNat < 2 ^ 10)
    (here : va.toNat = 4096 * n.val) :
    ∃ code after, mappages root va 4096 frame.addr perm ram = .ok (code, after) ∧
      Moves root ram count after count ∧ (code = 0 ∧ view after root =
        update (view ram root) n (some ⟨frame, perm ||| pteV⟩) ∨ code = -1 ∧ view after root =
        view ram root) := by
  obtain ⟨code, after, done, extended, result⟩ := mappages_page space.table
    space.fresh frame small here unmapped
  obtain ⟨kept, pool⟩ := space.extended extended fun m low => by
    rcases result with ⟨_, views⟩ | ⟨_, views⟩
    · rw [views, update_of_ne (low.trans_le high).ne]
    · rw [views]
  refine ⟨code, after, done, ⟨kept, pool, fun out => extended.kept
    fun same => ⟨fun node => out same (.inr (.inl node)), fun member =>
      out same (.inl member)⟩, extended.kernelEnd⟩, result⟩

theorem Space.unmap_top (space : Space ram root count) (high : trapframePage ≤ n) {leaf : Leaf}
    (found : view ram root n = some leaf) (isLeaf : leaf.flags ≠ pteV)
    (here : va.toNat = 4096 * n.val) :
    ∃ after, uvmunmap root va 1 false ram = .ok after ∧ Moves root ram count after count ∧
      view after root = update (view ram root) n none := by
  have inside : n.val < 2 ^ 26 := n.isLt
  have one : (1 : UInt64).toNat = 1 := rfl
  obtain ⟨after, done, shrinks, views⟩ := @uvmunmap_spec ram root va 1
    space.table false (by omega) (by omega) fun m low above => by
      have same : m = n := Fin.ext (by omega)
      rw [same]
      exact ⟨leaf, found, isLeaf, by rintro ⟨⟩⟩
  have number : va.toNat / 4096 = n.val := by omega
  rw [number, one, ← removed_succ, removed_zero] at views
  obtain ⟨kept, pool⟩ := space.shrunk shrinks fun m low => by
    rw [views, update_of_ne (low.trans_le high).ne]
  exact ⟨after, done, ⟨kept, pool, fun out => shrinks.kept fun same =>
    ⟨fun node => out same (.inr (.inl node)), List.not_mem_nil⟩,
    shrinks.kernelEnd⟩, views⟩

/-! proc_pagetable() and proc_freepagetable() -/

structure Tops (ram : Ram) (root text frame : Page) : Prop where
  trampoline : view ram root trampolinePage = some ⟨text, pteR ||| pteX ||| pteV⟩
  trapframe : view ram root trapframePage = some ⟨frame, pteR ||| pteW ||| pteV⟩

theorem text_isLeaf : pteR ||| pteX ||| pteV ≠ pteV := by decide

theorem frame_isLeaf : pteR ||| pteW ||| pteV ≠ pteV := by decide

theorem trapframe_lt : trapframePage < trampolinePage := by decide

theorem top_cases (high : trapframePage ≤ n) : n = trapframePage ∨ n = trampolinePage := by
  have first : trapframePage.val = 2 ^ 26 - 2 := by decide
  have second : trampolinePage.val = 2 ^ 26 - 1 := by decide
  have inside : n.val < 2 ^ 26 := n.isLt
  rw [Fin.le_def] at high
  rcases Nat.eq_or_lt_of_le high with same | above
  · exact .inl (Fin.ext same.symm)
  · exact .inr (Fin.ext (by omega))

theorem procPagetable_spec (allocator : Allocator ram) (text frame : Page) :
    ∃ result after, procPagetable text frame ram = .ok (result, after) ∧ match result with
      | none => Released (· ∈ ram.free) ram after
      | some root => Created root ram after ∧ Tops after root text frame := by
  obtain ⟨result, empty, made, rest⟩ := uvmcreate_spec allocator
  unfold procPagetable
  rw [made]
  cases result with
  | none => exact ⟨none, empty, rfl, rest⟩
  | some root =>
    obtain ⟨created, nothing⟩ := rest
    obtain ⟨code, first, mapsText, moves, result⟩ := @Space.map_top empty
      root 0 trampolinePage trampoline (pteR ||| pteX) created.space
      trapframe_lt.le (nothing _) text (by decide) (by decide)
    have created := created.moves moves
    dsimp only [bind, Except.bind]
    rw [mapsText]
    rcases result with ⟨rfl, views⟩ | ⟨rfl, views⟩
    · have absent : view first root trapframePage = none := by
        rw [views, update_of_ne trapframe_lt.ne]
        exact nothing _
      obtain ⟨code, second, mapsFrame, moves, result⟩ := @Space.map_top
        first root 0 trapframePage trapframe (pteR ||| pteW) created.space
        le_rfl absent frame (by decide) (by decide)
      have later := created.moves moves
      dsimp only
      rw [if_neg (by decide), mapsFrame]
      rcases result with ⟨rfl, viewsTwo⟩ | ⟨rfl, viewsTwo⟩
      · refine ⟨some root, second, rfl, later, ?_, ?_⟩
        · rw [viewsTwo, update_of_ne trapframe_lt.ne', views, update_self]
        · rw [viewsTwo, update_self]
      · have found : view second root trampolinePage = some ⟨text, pteR ||| pteX ||| pteV⟩ := by
          rw [viewsTwo, views, update_self]
        obtain ⟨third, unmapped, moves, viewsThree⟩ := @Space.unmap_top
          second root 0 trampolinePage trampoline later.space
          trapframe_lt.le _ found text_isLeaf (by decide)
        have last := later.moves moves
        obtain ⟨after, freed, released⟩ := @uvmfree_spec third root 0 0
          last.space (.of_pages rfl) fun n _ => by
            rw [viewsThree, viewsTwo, views, update_idem]
            by_cases same : n = trampolinePage
            · rw [same, update_self]
            · rw [update_of_ne same]
              exact nothing n
        refine ⟨none, after, ?_, .created last released⟩
        dsimp only
        rw [if_pos (by decide), unmapped]
        dsimp only
        rw [freed]
        rfl
    · obtain ⟨after, freed, released⟩ := @uvmfree_spec first root 0 0
        created.space (.of_pages rfl) fun n _ => by
          rw [views]
          exact nothing n
      refine ⟨none, after, ?_, .created created released⟩
      dsimp only
      rw [if_pos (by decide), freed]
      rfl

theorem procFreepagetable_spec {text frame : Page} (space : Space ram root count)
    (sized : Sized sz count) (tops : Tops ram root text frame) :
    ∃ after, procFreepagetable root sz ram = .ok after ∧
      Released (Pool ram root count) ram after := by
  obtain ⟨first, unmapsText, moves, views⟩ := @Space.unmap_top ram root count
    trampolinePage trampoline space trapframe_lt.le _ tops.trampoline text_isLeaf (by decide)
  have found : view first root trapframePage = some ⟨frame, pteR ||| pteW ||| pteV⟩ := by
    rw [views, update_of_ne trapframe_lt.ne, tops.trapframe]
  obtain ⟨second, unmapsFrame, more, viewsTwo⟩ := @Space.unmap_top first root
    count trapframePage trapframe moves.space le_rfl _ found frame_isLeaf (by decide)
  obtain ⟨after, freed, released⟩ := uvmfree_spec more.space sized fun n high => by
      rw [viewsTwo]
      rcases top_cases high with rfl | rfl
      · rw [update_self]
      · rw [update_of_ne trapframe_lt.ne', views, update_self]
  refine ⟨after, ?_, .moves (moves.trans more) released⟩
  unfold procFreepagetable
  dsimp only [bind, Except.bind]
  rw [unmapsText]
  dsimp only
  rw [unmapsFrame]
  exact freed

end

end Xv6Lottery.Vm
