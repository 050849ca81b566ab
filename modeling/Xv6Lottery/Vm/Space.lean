import Xv6Lottery.Vm.Uvm

/-! The pages of an address space. A page that kalloc() manages is on the free
list, a page of the table or a frame of user memory, and vm.c moves it between
these. -/

namespace Xv6Lottery.Vm

open Function

def InRam (ram : Ram) (page : Page) : Prop :=
  ram.kernelEnd ≤ page.addr ∧ page.addr.toNat < phystop

def Frame (ram : Ram) (root : Page) (count : Nat) (page : Page) : Prop :=
  ∃ n : Vpn, n.val < count ∧ ∃ leaf, view ram root n = some leaf ∧ leaf.frame = page

/-- The pages of an address space, and those on the free list. -/
def Pool (ram : Ram) (root : Page) (count : Nat) (page : Page) : Prop :=
  page ∈ ram.free ∨ Node ram root page ∨ Frame ram root count page

/-- User memory is the first pages, and no page is used twice. -/
structure Space (ram : Ram) (root : Page) (count : Nat) : Prop where
  table : Table ram root
  fresh : Fresh ram root
  pointers : Pointers ram root
  bound : count ≤ trapframePage.val
  user : ∀ n : Vpn, n.val < count → ∃ leaf, view ram root n = some leaf ∧ leaf.flags &&& pteR ≠ 0
  nothing : ∀ n : Vpn, count ≤ n.val → n < trapframePage → view ram root n = none
  apart : ∀ {page}, Frame ram root count page → ¬Node ram root page ∧ page ∉ ram.free
  distinct : ∀ {n m : Vpn} {leaf other}, n.val < count → m.val < count →
    view ram root n = some leaf → view ram root m = some other → leaf.frame = other.frame → n = m
  inRam : ∀ {page}, Pool ram root count page → InRam ram page
  kernelEnd : ram.kernelEnd ≠ 0

section

variable {ram between after : Ram} {root page other : Page}
  {count final : Nat} {n : Vpn} {leaf : Leaf} {a perm : UInt64}

theorem Page.eq_of_addr (same : page.addr = other.addr) : page = other :=
  Page.eq_of_toNat (congrArg UInt64.toNat same)

theorem Space.count_le (space : Space ram root count) : count ≤ phystop / pgsize := by
  have bound := space.bound
  choose leaf found _ using space.user
  have inside : ∀ i : Fin count, i.val < maxva / pgsize := fun i =>
    (i.isLt.trans_le bound).trans trapframePage.isLt
  have frame : ∀ i : Fin count, Frame ram root count (leaf ⟨i, inside i⟩ i.isLt).frame := fun i =>
    ⟨_, i.isLt, _, found _ i.isLt, rfl⟩
  have room : ∀ i : Fin count, (leaf ⟨i, inside i⟩ i.isLt).frame.addr.toNat / pgsize <
        phystop / pgsize := by
    intro i
    have high := (space.inRam (.inr (.inr (frame i)))).2
    simp only [phystop, pgsize] at *
    omega
  have injective : Function.Injective fun i =>
      (⟨_, room i⟩ : Fin (phystop / pgsize)) := by
    intro i j same
    have numbers : (leaf ⟨i, inside i⟩ i.isLt).frame.addr.toNat / 4096 =
      (leaf ⟨j, inside j⟩ j.isLt).frame.addr.toNat / 4096 :=
        congrArg Fin.val same
    have first : _ % 4096 = 0 := (leaf ⟨i, inside i⟩ i.isLt).frame.aligned
    have second : _ % 4096 = 0 := (leaf ⟨j, inside j⟩ j.isLt).frame.aligned
    have frames : (leaf ⟨i, inside i⟩ i.isLt).frame =
      (leaf ⟨j, inside j⟩ j.isLt).frame := Page.eq_of_toNat (by omega)
    have pages := space.distinct i.isLt j.isLt
      (found ⟨i, inside i⟩ i.isLt) (found ⟨j, inside j⟩ j.isLt) frames
    exact Fin.ext (Fin.mk.inj pages)
  have cards := Fintype.card_le_of_injective _ injective
  rw [Fintype.card_fin, Fintype.card_fin] at cards
  exact cards

theorem Space.count_lt (space : Space ram root count) : count < trapframePage.val := by
  refine space.count_le.trans_lt ?_
  decide

theorem Space.nonzero (space : Space ram root count)
    (pool : Pool ram root count page) : page.addr ≠ 0 := by
  intro zero
  have low := (space.inRam pool).1
  rw [zero] at low
  exact space.kernelEnd (UInt64.toNat_inj.mp (Nat.le_zero.mp (UInt64.le_iff_toNat_le.mp low)))

/-! A change outside of the table. -/

theorem frame_congr (views : view after root = view ram root) :
    Frame after root count page ↔ Frame ram root count page := by
  rw [Frame, views]
  rfl

section Outside

variable (space : Space ram root count) (same : ∀ {page i}, Node ram root page →
    after.entries page i = ram.entries page i) (kernelEnd : after.kernelEnd = ram.kernelEnd)

include space same kernelEnd

theorem Space.outside (nodup : after.free.Nodup) (free : ∀ {page}, page ∈ after.free →
      ¬Node ram root page ∧ ¬Frame ram root count page ∧ InRam ram page) :
    Space after root count := by
  have views := view_outside same
  have frames : ∀ {page}, Frame after root count page ↔
    Frame ram root count page := frame_congr views
  have nodes : ∀ {page}, Node after root page ↔ Node ram root page :=
    node_outside same
  have ranges : ∀ {page}, InRam after page ↔ InRam ram page := by
    intro page
    rw [InRam, kernelEnd]
    rfl
  have zero : ∀ {page}, InRam ram page → page.addr ≠ 0 := by
    intro page inside isZero
    refine space.kernelEnd (UInt64.toNat_inj.mp (Nat.le_zero.mp ?_))
    have low := inside.1
    rw [isZero] at low
    exact UInt64.le_iff_toNat_le.mp low
  exact {
    table := space.table.outside same
    fresh := ⟨nodup, fun member node => (free member).1 (nodes.mp node),
      fun member => zero (free member).2.2⟩
    pointers := Pointers.outside same space.pointers
    bound := space.bound
    user := by
      rw [views]
      exact space.user
    nothing := by
      rw [views]
      exact space.nothing
    apart := fun frame => ⟨fun node =>
      (space.apart (frames.mp frame)).1 (nodes.mp node),
      fun member => (free member).2.1 (frames.mp frame)⟩
    distinct := by
      rw [views]
      exact space.distinct
    inRam := fun pool => ranges.mpr (pool.elim (fun member => (free member).2.2)
      fun used => space.inRam (.inr (used.imp nodes.mp frames.mp)))
    kernelEnd := by
      rw [kernelEnd]
      exact space.kernelEnd }

end Outside

theorem entries_of_words (words : ∀ {a}, pgRoundDown a ≠ page.addr → after.word a = ram.word a)
    (apart : node ≠ page) : after.entries node i = ram.entries node i := by
  refine words ?_
  rw [node.entry_page]
  exact fun same => apart (Page.eq_of_addr same)

theorem Space.write (space : Space ram root count)
    (words : ∀ {a}, pgRoundDown a ≠ page.addr → after.word a = ram.word a)
    (free : after.free = ram.free) (kernelEnd : after.kernelEnd = ram.kernelEnd)
    (apart : ¬Node ram root page) :
    Space after root count ∧ view after root = view ram root ∧ ∀ {other},
      Pool after root count other ↔ Pool ram root count other := by
  have same : ∀ {node i}, Node ram root node → after.entries node i = ram.entries node i := by
    intro node i isNode
    refine entries_of_words words ?_
    rintro rfl
    exact apart isNode
  refine ⟨space.outside same kernelEnd ?_ fun {other} member => ?_,
    view_outside same, fun {other} => ?_⟩
  · rw [free]
    exact space.fresh.nodup
  · rw [free] at member
    exact ⟨space.fresh.apart member, fun frame => (space.apart frame).2 member,
      space.inRam (.inl member)⟩
  · rw [Pool, Pool, free, node_outside same, frame_congr (view_outside same)]

/-! kalloc() and kfree() -/

structure Took (root : Page) (count : Nat) (ram : Ram) (page : Page) (after : Ram) : Prop where
  space : Space after root count
  view : view after root = view ram root
  out : ¬Pool after root count page
  inRam : InRam after page
  pool : ∀ {other}, Pool ram root count other ↔ other = page ∨ Pool after root count other
  words : ∀ {a}, pgRoundDown a ≠ page.addr → after.word a = ram.word a
  kernelEnd : after.kernelEnd = ram.kernelEnd

theorem Space.kalloc (space : Space ram root count) (first : ram.free = page :: after.free)
    (words : ∀ {a}, pgRoundDown a ≠ page.addr → after.word a = ram.word a)
    (kernelEnd : after.kernelEnd = ram.kernelEnd) : Took root count ram page after := by
  have member : page ∈ ram.free := by
    rw [first]
    exact List.mem_cons_self
  have nodup : (page :: after.free).Nodup := first ▸ space.fresh.nodup
  have keeps : ∀ {other}, other ∈ after.free → other ∈ ram.free := by
    intro other there
    rw [first]
    exact List.mem_cons_of_mem _ there
  have same : ∀ {node i}, Node ram root node → after.entries node i = ram.entries node i := by
    intro node i isNode
    refine entries_of_words words ?_
    rintro rfl
    exact space.fresh.apart member isNode
  have views := view_outside same
  have nodes : ∀ {other}, Node after root other ↔ Node ram root other :=
    node_outside same
  have frames : ∀ {other}, Frame after root count other ↔
    Frame ram root count other := frame_congr views
  exact {
    space := space.outside same kernelEnd (List.nodup_cons.mp nodup).2
      fun there => ⟨space.fresh.apart (keeps there),
        fun frame => (space.apart frame).2 (keeps there), space.inRam (.inl (keeps there))⟩
    view := views
    out := by
      rintro (there | node | frame)
      · exact (List.nodup_cons.mp nodup).1 there
      · exact space.fresh.apart member (nodes.mp node)
      · exact (space.apart (frames.mp frame)).2 member
    inRam := by
      rw [InRam, kernelEnd]
      exact space.inRam (.inl member)
    pool := by
      intro other
      rw [Pool, Pool, nodes, frames, first, List.mem_cons, or_assoc]
    words := words
    kernelEnd := kernelEnd }

structure Gave (root : Page) (count : Nat) (ram : Ram) (page : Page) (after : Ram) : Prop where
  space : Space after root count
  view : view after root = view ram root
  pool : ∀ {other}, Pool after root count other ↔ other = page ∨ Pool ram root count other
  words : ∀ {a}, pgRoundDown a ≠ page.addr → after.word a = ram.word a
  kernelEnd : after.kernelEnd = ram.kernelEnd

theorem kfree_eq (inRam : InRam ram page) :
    ram.kfree page = .ok { ram.memset page 0x0101010101010101 with
      free := page :: ram.free } := by
  refine if_neg ?_
  rw [not_or, UInt64.not_lt, Nat.not_le]
  exact inRam

theorem Space.kfree (space : Space ram root count) (out : ¬Pool ram root count page)
    (inRam : InRam ram page) :
    ∃ after, ram.kfree page = .ok after ∧ Gave root count ram page after := by
  refine ⟨_, kfree_eq inRam, ?_⟩
  simp only [Pool, not_or] at out
  obtain ⟨unlisted, noNode, noFrame⟩ := out
  have words : ∀ {a}, pgRoundDown a ≠ page.addr →
      (ram.memset page 0x0101010101010101).word a = ram.word a := fun apart =>
    if_neg apart
  have same : ∀ {node i}, Node ram root node → (ram.memset page 0x0101010101010101).entries node i =
        ram.entries node i := by
    intro node i isNode
    refine entries_of_words words ?_
    rintro rfl
    exact noNode isNode
  have views := view_outside same
  have nodes : ∀ {other}, Node (ram.memset page 0x0101010101010101) root
    other ↔ Node ram root other := node_outside same
  have frames : ∀ {other}, Frame (ram.memset page 0x0101010101010101) root
    count other ↔ Frame ram root count other := frame_congr views
  have nodup : (page :: ram.free).Nodup :=
    List.nodup_cons.mpr ⟨unlisted, space.fresh.nodup⟩
  exact {
    space := by
      refine space.outside same rfl nodup fun {other} member => ?_
      rcases List.mem_cons.mp member with rfl | there
      · exact ⟨noNode, noFrame, inRam⟩
      · exact ⟨space.fresh.apart there, fun frame =>
          (space.apart frame).2 there, space.inRam (.inl there)⟩
    view := views
    pool := by
      intro other
      have rest := @nodes other
      have used := @frames other
      change other ∈ page :: ram.free ∨ Node (ram.memset page 0x0101010101010101) root other ∨
        Frame (ram.memset page 0x0101010101010101) root count other ↔ _
      rw [rest, used, List.mem_cons, or_assoc]
      rfl
    words := words
    kernelEnd := rfl }

/-! mappages() -/

theorem Extends.pool (extended : Extends root ram after) :
    page ∈ after.free ∨ Node after root page ↔ page ∈ ram.free ∨ Node ram root page := by
  obtain ⟨taken, free, nodes⟩ := extended.taken
  rw [nodes, free, List.mem_append]
  tauto

theorem inRam_congr (kernelEnd : after.kernelEnd = ram.kernelEnd) :
    InRam after page ↔ InRam ram page := by
  rw [InRam, kernelEnd]
  rfl

theorem Space.extended (space : Space ram root count) (extended : Extends root ram after)
    (views : ∀ n < trapframePage, view after root n = view ram root n) :
    Space after root count ∧ ∀ {page}, Pool after root count page ↔ Pool ram root count page := by
  have bound := space.bound
  have below : ∀ {n : Vpn}, n.val < count → n < trapframePage :=
    fun less => Fin.lt_def.mpr (less.trans_le bound)
  have frames : ∀ {page}, Frame after root count page ↔ Frame ram root count page := by
    intro page
    refine exists_congr fun n => and_congr_right fun less => ?_
    rw [views n (below less)]
  have pool : ∀ {page}, Pool after root count page ↔ Pool ram root count page := by
    intro page
    rw [Pool, Pool, ← or_assoc, ← or_assoc, extended.pool, frames]
  refine ⟨{
    table := extended.table
    fresh := extended.fresh
    pointers := extended.pointers space.pointers
    bound := bound
    user := fun n less => by
      rw [views n (below less)]
      exact space.user n less
    nothing := fun n above less => by
      rw [views n less]
      exact space.nothing n above less
    apart := fun frame =>
      have ⟨node, free⟩ := space.apart (frames.mp frame)
      extended.not_node node free
    distinct := fun {n m leaf other} less otherLess found theirs => by
      rw [views n (below less)] at found
      rw [views m (below otherLess)] at theirs
      exact space.distinct less otherLess found theirs
    inRam := fun isPool => (inRam_congr extended.kernelEnd).mpr (space.inRam (pool.mp isPool))
    kernelEnd := by
      rw [extended.kernelEnd]
      exact space.kernelEnd }, pool⟩

theorem Space.mapped (space : Space ram root count) (extended : Extends root ram after)
    (number : n.val = count) (out : ¬Pool ram root count page) (inRam : InRam ram page)
    (reads : perm &&& pteR ≠ 0)
    (views : view after root = update (view ram root) n (some ⟨page, perm⟩)) :
    Space after root (count + 1) ∧ ∀ {other}, Pool after root (count + 1) other ↔ other = page ∨
      Pool ram root count other := by
  simp only [Pool, not_or] at out
  obtain ⟨unlisted, noNode, noFrame⟩ := out
  have here : view after root n = some ⟨page, perm⟩ := by
    rw [views, update_self]
  have others : ∀ {m : Vpn}, m.val ≠ count → view after root m = view ram root m := by
    intro m apart
    rw [views, update_of_ne]
    rintro rfl
    exact apart number
  have cases : ∀ {m : Vpn}, m.val < count + 1 → m = n ∨ m.val < count := by
    intro m less
    rcases Nat.lt_succ_iff_lt_or_eq.mp less with old | same
    · exact .inr old
    · exact .inl (Fin.ext (same.trans number.symm))
  have frames : ∀ {other}, Frame after root (count + 1) other ↔
      other = page ∨ Frame ram root count other := by
    intro other
    constructor
    · rintro ⟨m, less, leaf, found, rfl⟩
      rcases cases less with rfl | old
      · cases here.symm.trans found
        exact .inl rfl
      · rw [others old.ne] at found
        exact .inr ⟨m, old, leaf, found, rfl⟩
    · rintro (rfl | ⟨m, old, leaf, found, rfl⟩)
      · exact ⟨n, by omega, _, here, rfl⟩
      · refine ⟨m, by omega, leaf, ?_, rfl⟩
        rw [others old.ne]
        exact found
  have pool : ∀ {other}, Pool after root (count + 1) other ↔
      other = page ∨ Pool ram root count other := by
    intro other
    rw [Pool, Pool, ← or_assoc, extended.pool, frames]
    tauto
  have apart : ∀ {m leaf}, m.val < count → view ram root m = some leaf → leaf.frame ≠ page := by
    rintro m leaf old found rfl
    exact noFrame ⟨m, old, leaf, found, rfl⟩
  refine ⟨{
    table := extended.table
    fresh := extended.fresh
    pointers := extended.pointers space.pointers
    bound := space.count_lt
    user := fun m less => ?_
    nothing := fun m above less => ?_
    apart := fun {other} frame => ?_
    distinct := fun {m k leaf other} less otherLess found theirs same => ?_
    inRam := fun isPool => ?_
    kernelEnd := ?_ }, pool⟩
  · rcases cases less with rfl | old
    · exact ⟨_, here, reads⟩
    · rw [others old.ne]
      exact space.user m old
  · rw [others (by omega)]
    exact space.nothing m (by omega) less
  · rcases frames.mp frame with rfl | old
    · exact extended.not_node noNode unlisted
    · have ⟨node, free⟩ := space.apart old
      exact extended.not_node node free
  · rcases cases less with rfl | old
    · rcases cases otherLess with rfl | older
      · rfl
      · cases here.symm.trans found
        rw [others older.ne] at theirs
        exact (apart older theirs same.symm).elim
    · rw [others old.ne] at found
      rcases cases otherLess with rfl | older
      · cases here.symm.trans theirs
        exact (apart old found same).elim
      · rw [others older.ne] at theirs
        exact space.distinct old older found theirs same
  · rw [inRam_congr extended.kernelEnd]
    rcases pool.mp isPool with rfl | old
    · exact inRam
    · exact space.inRam old
  · rw [extended.kernelEnd]
    exact space.kernelEnd

/-! uvmunmap() -/

theorem mem_framesIn :
    page ∈ framesIn map first count ↔ ∃ n : Vpn, first ≤ n.val ∧ n.val < first + count ∧ ∃ leaf,
      map n = some leaf ∧ leaf.frame = page := by
  induction count generalizing first with
  | zero =>
    refine iff_of_false List.not_mem_nil ?_
    rintro ⟨n, low, high, _⟩
    exact absurd (high.trans_le low) (lt_irrefl _)
  | succ count induction =>
    rw [framesIn, List.mem_append, induction]
    constructor
    · rintro (here | ⟨n, low, high, rest⟩)
      · split at here
        next small =>
          rw [Option.mem_toList, Option.map_eq_some_iff] at here
          exact ⟨⟨first, small⟩, le_rfl, by dsimp only; omega, here⟩
        next => exact absurd here List.not_mem_nil
      · exact ⟨n, by omega, by omega, rest⟩
    · rintro ⟨n, low, high, leaf, found, rfl⟩
      by_cases here : n.val = first
      · left
        rw [dif_pos (here ▸ n.isLt), Option.mem_toList, Option.map_eq_some_iff]
        refine ⟨leaf, ?_, rfl⟩
        rw [← found]
        exact congrArg map (Fin.ext here.symm)
      · exact .inr ⟨n, by omega, by omega, leaf, found, rfl⟩

theorem framesIn_nodup (distinct : ∀ {n m : Vpn} {leaf other}, n.val < first + count → m.val <
      first + count → map n = some leaf → map m = some other → leaf.frame = other.frame → n = m) :
    (framesIn map first count).Nodup := by
  induction count generalizing first with
  | zero => exact List.nodup_nil
  | succ count induction =>
    have rest : (framesIn map (first + 1) count).Nodup :=
      induction fun less other => distinct (by omega) (by omega)
    rw [framesIn]
    split
    next small =>
      cases found : map ⟨first, small⟩ with
      | none => exact rest
      | some leaf =>
        refine List.nodup_cons.mpr ⟨fun member => ?_, rest⟩
        obtain ⟨n, low, high, other, theirs, same⟩ :=
          mem_framesIn.mp member
        have equal := distinct (by omega) (by dsimp only; omega) theirs
          found same
        rw [equal] at low
        exact absurd low (Nat.not_succ_le_self _)
    next => exact rest

theorem Space.removed (space : Space ram root count) (fewer : first ≤ count)
    (shrinks : Shrinks root (framesIn (view ram root) first (count - first)) ram after)
    (views : view after root = Vm.removed (view ram root) first (count - first)) :
    Space after root first ∧ ∀ {page}, Pool after root first page ↔ Pool ram root count page := by
  have bound := space.bound
  have whole : first + (count - first) = count := by omega
  have kept : ∀ {n : Vpn}, n.val < first → view after root n = view ram root n := by
    intro n less
    rw [views]
    exact if_neg fun range => absurd less (Nat.not_lt.mpr range.1)
  have gone : ∀ {page}, page ∈ framesIn (view ram root) first
      (count - first) ↔ ∃ n : Vpn, first ≤ n.val ∧ n.val < count ∧
        ∃ leaf, view ram root n = some leaf ∧ leaf.frame = page := by
    intro page
    rw [mem_framesIn, whole]
  have frames : ∀ {page}, Frame after root first page ↔
      ∃ n : Vpn, n.val < first ∧ ∃ leaf, view ram root n = some leaf ∧ leaf.frame = page := by
    intro page
    refine exists_congr fun n => and_congr_right fun less => ?_
    rw [kept less]
  have old : ∀ {page}, Frame after root first page → Frame ram root count page := by
    intro page frame
    obtain ⟨n, less, leaf, found, same⟩ := frames.mp frame
    exact ⟨n, less.trans_le fewer, leaf, found, same⟩
  have free : ∀ {page}, page ∈ after.free ↔ page ∈ framesIn (view ram root) first (count - first) ∨
        page ∈ ram.free := by
    intro page
    rw [shrinks.free, List.mem_append, List.mem_reverse]
  have pool : ∀ {page}, Pool after root first page ↔ Pool ram root count page := by
    intro page
    rw [Pool, Pool, free, shrinks.nodes, frames, gone]
    constructor
    · rintro ((⟨n, _, less, rest⟩ | member) | node | ⟨n, less, rest⟩)
      · exact .inr (.inr ⟨n, less, rest⟩)
      · exact .inl member
      · exact .inr (.inl node)
      · exact .inr (.inr ⟨n, less.trans_le fewer, rest⟩)
    · rintro (member | node | ⟨n, less, rest⟩)
      · exact .inl (.inr member)
      · exact .inr (.inl node)
      · by_cases low : n.val < first
        · exact .inr (.inr ⟨n, low, rest⟩)
        · exact .inl (.inl ⟨n, Nat.not_lt.mp low, less, rest⟩)
  have listed : ∀ {page}, page ∈ framesIn (view ram root) first
      (count - first) → Frame ram root count page := by
    intro page member
    obtain ⟨n, _, less, rest⟩ := gone.mp member
    exact ⟨n, less, rest⟩
  refine ⟨{
    table := shrinks.table
    fresh := ⟨?_, fun {page} member node => ?_, fun {page} member => ?_⟩
    pointers := shrinks.pointers space.pointers
    bound := fewer.trans bound
    user := fun n less => ?_
    nothing := fun n above less => ?_
    apart := fun {page} frame => ?_
    distinct := fun {n m leaf other} less otherLess found theirs => ?_
    inRam := fun isPool => ?_
    kernelEnd := ?_ }, pool⟩
  · rw [shrinks.free, List.nodup_append', List.nodup_reverse]
    refine ⟨framesIn_nodup fun less otherLess => space.distinct
      (whole ▸ less) (whole ▸ otherLess), space.fresh.nodup, ?_⟩
    intro page member there
    rw [List.mem_reverse] at member
    exact (space.apart (listed member)).2 there
  · have old := shrinks.nodes.mp node
    rcases free.mp member with frame | there
    · exact (space.apart (listed frame)).1 old
    · exact space.fresh.apart there old
  · rcases free.mp member with frame | there
    · exact space.nonzero (.inr (.inr (listed frame)))
    · exact space.fresh.nonzero there
  · rw [kept less]
    exact space.user n (less.trans_le fewer)
  · rw [views]
    by_cases inside : n.val < count
    · exact if_pos ⟨above, by omega⟩
    · exact (if_neg (by omega)).trans
        (space.nothing n (Nat.not_lt.mp inside) less)
  · have ⟨noNode, unlisted⟩ := space.apart (old frame)
    refine ⟨fun node => noNode (shrinks.nodes.mp node), fun member => ?_⟩
    rcases free.mp member with again | there
    · obtain ⟨n, less, leaf, found, same⟩ := frames.mp frame
      obtain ⟨m, low, high, other, theirs, equal⟩ := gone.mp again
      have pages := space.distinct (less.trans_le fewer) high found theirs (same.trans equal.symm)
      rw [pages] at less
      exact absurd less (Nat.not_lt.mpr low)
    · exact unlisted there
  · rw [kept less] at found
    rw [kept otherLess] at theirs
    exact space.distinct (less.trans_le fewer) (otherLess.trans_le fewer) found theirs
  · rw [inRam_congr shrinks.kernelEnd]
    exact space.inRam (pool.mp isPool)
  · rw [shrinks.kernelEnd]
    exact space.kernelEnd

theorem Space.shrunk (space : Space ram root count) (shrinks : Shrinks root [] ram after)
    (views : ∀ n < trapframePage, view after root n = view ram root n) :
    Space after root count ∧ ∀ {page}, Pool after root count page ↔ Pool ram root count page := by
  have taken : ∃ taken, ram.free = taken ++ after.free ∧
      ∀ {page}, Node after root page ↔ Node ram root page ∨ page ∈ taken :=
    ⟨[], shrinks.free.symm, fun {page} => by
      rw [shrinks.nodes, or_iff_left List.not_mem_nil]⟩
  have free : after.free = ram.free := shrinks.free
  refine space.extended {
    table := shrinks.table
    fresh := ⟨?_, fun {page} member node => ?_, fun {page} member => ?_⟩
    pointers := shrinks.pointers
    taken := taken
    kept := fun outside => shrinks.kept fun same =>
      ⟨(outside same).1, List.not_mem_nil⟩
    kernelEnd := shrinks.kernelEnd } views
  · rw [free]
    exact space.fresh.nodup
  · rw [free] at member
    exact space.fresh.apart member (shrinks.nodes.mp node)
  · rw [free] at member
    exact space.fresh.nonzero member

end

end Xv6Lottery.Vm
