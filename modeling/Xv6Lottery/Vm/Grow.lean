import Xv6Lottery.Vm.Space
import Xv6Lottery.Vm.Bytes

/-! uvmalloc() and uvmdealloc() -/

namespace Xv6Lottery.Vm

open Function

/-- An address space gets another number of pages; the memory of others is as
before. -/
structure Moves (root : Page) (ram : Ram) (count : Nat) (after : Ram) (final : Nat) : Prop where
  space : Space after root final
  pool : ∀ {page}, Pool after root final page ↔ Pool ram root count page
  outside : ∀ {a}, (∀ {page}, pgRoundDown a = page.addr →
    ¬Pool ram root count page) → after.word a = ram.word a
  kernelEnd : after.kernelEnd = ram.kernelEnd

/-- The first of its pages are as before too. -/
structure Changes (root : Page) (keeps : Nat) (ram : Ram) (count : Nat)
    (after : Ram) (final : Nat) : Prop extends Moves root ram count after final where
  above : ∀ n : Vpn, trapframePage ≤ n → view after root n = view ram root n
  below : ∀ n : Vpn, n.val < keeps → view after root n = view ram root n
  words : ∀ {n : Vpn} {leaf a}, n.val < keeps → view ram root n = some leaf →
    pgRoundDown a = leaf.frame.addr → after.word a = ram.word a

structure Sized (sz : UInt64) (count : Nat) : Prop where
  covers : sz.toNat ≤ 4096 * count
  tight : 4096 * count < sz.toNat + 4096

def Zeroed (ram : Ram) (root : Page) (flags : UInt64) (first final : Nat) :
    Prop :=
  ∀ n : Vpn, first ≤ n.val → n.val < final → ∃ leaf,
    view ram root n = some leaf ∧ leaf.flags = flags ∧
      ∀ {a}, pgRoundDown a = leaf.frame.addr → ram.word a = 0

section

variable {ram between after : Ram} {root page : Page} {count middle final keeps : Nat} {n : Vpn}
  {a perm oldsz newsz va npages : UInt64}

theorem Moves.trans (first : Moves root ram count between middle)
    (second : Moves root between middle after final) : Moves root ram count after final where
  space := second.space
  pool := second.pool.trans first.pool
  outside := fun out => by
    rw [second.outside fun same pool => out same (first.pool.mp pool), first.outside out]
  kernelEnd := second.kernelEnd.trans first.kernelEnd

namespace Changes

theorem refl (space : Space ram root count) : Changes root keeps ram count ram count :=
  ⟨⟨space, Iff.rfl, fun _ => rfl, rfl⟩, fun _ _ => rfl, fun _ _ => rfl, fun _ _ _ => rfl⟩

theorem trans (first : Changes root keeps ram count between middle)
    (second : Changes root keeps between middle after final) :
    Changes root keeps ram count after final where
  toMoves := first.toMoves.trans second.toMoves
  above := fun n high => (second.above n high).trans (first.above n high)
  below := fun n less => (second.below n less).trans (first.below n less)
  words := fun {n _ _} less found inside => by
    rw [second.words less ((first.below n less).trans found) inside, first.words less found inside]

theorem weaken (changes : Changes root middle ram count after final)
    (fewer : keeps ≤ middle) : Changes root keeps ram count after final :=
  { changes with
    below := fun n less => changes.below n (less.trans_le fewer)
    words := fun less => changes.words (less.trans_le fewer) }

theorem deny (space : Space ram root count) (denied : List Bool) :
    Changes root keeps ram count { ram with denied := denied } count := by
  have same : ∀ {page i}, Node ram root page →
      ({ ram with denied := denied } : Ram).entries page i = ram.entries page i := fun _ => rfl
  refine ⟨⟨space.outside same rfl space.fresh.nodup fun member => ?_, Iff.rfl,
    fun _ => rfl, rfl⟩, fun _ _ => rfl, fun _ _ => rfl, fun _ _ _ => rfl⟩
  exact ⟨space.fresh.apart member, fun frame => (space.apart frame).2 member,
    space.inRam (.inl member)⟩

end Changes

theorem Space.frame_apart (space : Space ram root count) (less : n.val < count)
    (found : view ram root n = some leaf) (inside : pgRoundDown a = leaf.frame.addr)
    (same : pgRoundDown a = page.addr) : ¬Node ram root page ∧ page ∉ ram.free := by
  obtain rfl : page = leaf.frame := Page.eq_of_addr (same.symm.trans inside)
  exact space.apart ⟨n, less, leaf, found, rfl⟩

/-! A new page. -/

theorem or_pteV_reads (reads : perm &&& pteR ≠ 0) : (perm ||| pteV) &&& pteR ≠ 0 := by
  have bits : (perm ||| pteV) &&& pteR = perm &&& pteR := by
    have zero : pteV.toBitVec &&& pteR.toBitVec = 0#64 := by decide
    refine UInt64.eq_of_toBitVec_eq ?_
    rw [UInt64.toBitVec_and, UInt64.toBitVec_or, UInt64.toBitVec_and,
      BitVec.and_or_distrib_right, zero, BitVec.or_zero]
  rw [bits]
  exact reads

theorem reads_ne_pteV {leaf : Leaf} (reads : leaf.flags &&& pteR ≠ 0) : leaf.flags ≠ pteV := by
  intro same
  rw [same] at reads
  exact reads (by decide)

/-- A page from the free list is filled, and mapped as the next page of user
memory; or mappages() fails, and kfree() takes it back. -/
theorem Space.grow (space : Space ram root count) {filled : Ram}
    (first : ram.free = page :: filled.free)
    (filledWords : ∀ {a}, pgRoundDown a ≠ page.addr → filled.word a = ram.word a)
    (kernelEnd : filled.kernelEnd = ram.kernelEnd) (small : perm.toNat < 2 ^ 10)
    (reads : perm &&& pteR ≠ 0) (here : va.toNat = 4096 * count) :
    ∃ code between, mappages root va 4096 page.addr perm filled = .ok (code, between) ∧
      (code = 0 ∧ Changes root count ram count between (count + 1) ∧
        (∀ n : Vpn, n.val = count → view between root n = some ⟨page, perm ||| pteV⟩) ∧
        (∀ {a}, pgRoundDown a = page.addr → between.word a = filled.word a) ∨ code = -1 ∧ ∃ after,
        between.kfree page = .ok after ∧ Changes root count ram count after count) := by
  have took := space.kalloc first filledWords kernelEnd
  have bound := took.space.count_lt
  have inside : count < maxva / pgsize := bound.trans trapframePage.isLt
  have out := took.out
  have inPool : Pool ram root count page := took.pool.mpr (.inl rfl)
  obtain ⟨code, between, done, extended, result⟩ :=
    @mappages_page filled root va perm ⟨count, inside⟩ took.space.table
      took.space.fresh page small here (took.space.nothing ⟨count, inside⟩ le_rfl bound)
  have kept : ∀ {a}, (∀ {other}, pgRoundDown a = other.addr →
      ¬Node filled root other ∧ other ∉ filled.free) →
        pgRoundDown a ≠ page.addr → between.word a = ram.word a :=
    fun outside apart => (extended.kept outside).trans (took.words apart)
  have unowned : ∀ {a}, (∀ {other}, pgRoundDown a = other.addr →
      ¬Pool ram root count other) → between.word a = ram.word a := by
    intro a outside
    refine kept (fun {other} same => ?_) fun same => outside same inPool
    have no := outside same
    rw [took.pool, not_or, Pool, not_or, not_or] at no
    exact ⟨no.2.2.1, no.2.1⟩
  have frames : ∀ {n : Vpn} {leaf a}, n.val < count →
      view ram root n = some leaf → pgRoundDown a = leaf.frame.addr →
        between.word a = ram.word a ∧ pgRoundDown a ≠ page.addr := by
    intro n leaf a less found inside
    have apart : pgRoundDown a ≠ page.addr := by
      intro same
      refine (space.frame_apart less found inside same).2 ?_
      rw [first]
      exact List.mem_cons_self
    refine ⟨kept (fun same => ?_) apart, apart⟩
    rw [← took.view] at found
    exact took.space.frame_apart less found inside same
  have views : ∀ {m : Vpn} {value}, m.val ≠ count →
      update (view filled root) ⟨count, inside⟩ value m = view ram root m := by
    intro m value apart
    rw [update_of_ne fun same => apart (congrArg Fin.val same), took.view]
  refine ⟨code, between, done, ?_⟩
  rcases result with ⟨rfl, mapsTo⟩ | ⟨rfl, same⟩
  · obtain ⟨grown, pool⟩ := took.space.mapped extended rfl out took.inRam
      (or_pteV_reads reads) mapsTo
    refine .inl ⟨rfl, {
      space := grown
      pool := pool.trans took.pool.symm
      outside := unowned
      kernelEnd := extended.kernelEnd.trans took.kernelEnd
      above := fun n high => by
        rw [mapsTo, views (Nat.ne_of_gt (bound.trans_le high))]
      below := fun n less => by
        rw [mapsTo, views less.ne]
      words := fun less found inside => (frames less found inside).1 },
      fun n same => ?_, fun {a} inside => extended.kept fun {other} same => ?_⟩
    · have number : n = ⟨count, inside⟩ := Fin.ext same
      rw [mapsTo, number, update_self]
    · obtain rfl : other = page := Page.eq_of_addr (same.symm.trans inside)
      rw [Pool, not_or, not_or] at out
      exact ⟨out.2.1, out.1⟩
  · obtain ⟨kept, pool⟩ := took.space.extended extended fun n _ => by rw [same]
    obtain ⟨after, freed, gave⟩ := kept.kfree (fun member => out (pool.mp member))
      ((inRam_congr extended.kernelEnd).mpr took.inRam)
    have whole : view after root = view ram root := by
      rw [gave.view, same, took.view]
    refine .inr ⟨rfl, after, freed, {
      space := gave.space
      pool := by
        intro other
        rw [gave.pool, pool, took.pool]
      outside := fun {a} outside => ?_
      kernelEnd := gave.kernelEnd.trans (extended.kernelEnd.trans took.kernelEnd)
      above := fun n _ => by rw [whole]
      below := fun n _ => by rw [whole]
      words := fun less found inside => ?_ }⟩
    · rw [gave.words fun same => outside same inPool]
      exact unowned outside
    · obtain ⟨old, apart⟩ := frames less found inside
      rw [gave.words apart, old]

/-! The last pages of user memory. -/

theorem Space.unmap (space : Space ram root count) (fewer : final ≤ count)
    (start : va.toNat = 4096 * final) (many : npages.toNat = count - final) :
    ∃ after, uvmunmap root va npages true ram = .ok after ∧
      Changes root final ram count after final := by
  have bound := space.bound
  have top : trapframePage.val = 2 ^ 26 - 2 := by decide
  have number : va.toNat / 4096 = final := by omega
  obtain ⟨after, done, shrinks, views⟩ := @uvmunmap_spec ram root va npages
    space.table true (by omega) (by omega) fun n low high => by
      have less : n.val < count := by omega
      obtain ⟨leaf, found, reads⟩ := space.user n less
      have frame : Frame ram root count leaf.frame := ⟨n, less, leaf, found, rfl⟩
      exact ⟨leaf, found, reads_ne_pteV reads, fun _ =>
        ⟨(space.apart frame).1, space.inRam (.inr (.inr frame))⟩⟩
  rw [number, many] at shrinks views
  rw [if_pos rfl] at shrinks
  obtain ⟨smaller, pool⟩ := space.removed fewer shrinks views
  have outside : ∀ {n : Vpn}, ¬(final ≤ n.val ∧ n.val < count) →
      view after root n = view ram root n := by
    intro n apart
    rw [views]
    exact if_neg (by omega)
  refine ⟨after, done, {
    space := smaller
    pool := pool
    outside := fun out => shrinks.kept fun same => ⟨fun node =>
      out same (.inr (.inl node)), fun member => ?_⟩
    kernelEnd := shrinks.kernelEnd
    above := fun n high => outside fun range =>
      absurd (range.2.trans_le bound) (Nat.not_lt.mpr high)
    below := fun n less => outside fun range =>
      absurd less (Nat.not_lt.mpr range.1)
    words := fun {n leaf a} less found inside => shrinks.kept
      fun {page} same => ⟨?_, fun member => ?_⟩ }⟩
  · obtain ⟨n, low, high, rest⟩ := mem_framesIn.mp member
    exact out same (.inr (.inr ⟨n, by omega, rest⟩))
  · exact (space.frame_apart (less.trans_le fewer) found inside same).1
  · obtain rfl : page = leaf.frame := Page.eq_of_addr (same.symm.trans inside)
    obtain ⟨m, low, high, other, theirs, equal⟩ := mem_framesIn.mp member
    have pages := space.distinct (less.trans_le fewer) (by omega) found theirs
      equal.symm
    rw [pages] at less
    exact absurd less (Nat.not_lt.mpr low)

/-! uvmdealloc() -/

theorem extend_truncate (small : a.toNat < 2 ^ 31) : extend (truncate a) = a := by
  refine UInt64.toNat_inj.mp ?_
  have extended : (extend (truncate a)).toNat = ((truncate a).toInt % 2 ^ 64).toNat := rfl
  have truncated : (truncate a).toInt = (a.toNat % 2 ^ 32 : Int).bmod (2 ^ 32) := by
    change (a.toUInt32.toBitVec).toInt = _
    rw [BitVec.toInt_eq_toNat_bmod]
    rfl
  rw [extended, truncated, Int.bmod]
  omega

theorem pgRoundUp_toNat (room : a.toNat + 4095 < 2 ^ 64) :
    (pgRoundUp a).toNat = (a.toNat + 4095) / 4096 * 4096 := by
  have unit : (4096 : UInt64).toNat = 4096 := rfl
  have one : (1 : UInt64).toNat = 1 := rfl
  have sum : (a + 4096 - 1).toNat = a.toNat + 4095 := by
    rw [UInt64.toNat_sub, UInt64.toNat_add, unit, one]
    omega
  have down := pgRoundDown_toNat (a + 4096 - 1)
  rw [sum, pgsize] at down
  exact down

theorem Sized.roundUp (sized : Sized a count) (bound : count < 2 ^ 50) :
    (pgRoundUp a).toNat = 4096 * count := by
  obtain ⟨covers, tight⟩ := sized
  rw [pgRoundUp_toNat (by omega)]
  omega

theorem Sized.of_pages (pages : a.toNat = 4096 * count) : Sized a count :=
  ⟨by omega, by omega⟩

theorem Space.count_small (space : Space ram root count) : count < 2 ^ 20 := by
  refine space.count_le.trans_lt ?_
  decide

theorem uvmdealloc_spec (space : Space ram root count) (old : Sized oldsz count)
    (new : Sized newsz final) (less : newsz < oldsz) :
    ∃ after, uvmdealloc root oldsz newsz ram = .ok (newsz, after) ∧
      Changes root final ram count after final := by
  have small := space.count_small
  rw [UInt64.lt_iff_toNat_lt] at less
  have fewer : final ≤ count := by
    have covers := old.covers
    have tight := new.tight
    omega
  have oldUp := old.roundUp (by omega)
  have newUp := new.roundUp (by omega)
  unfold uvmdealloc
  rw [if_neg (by rw [UInt64.le_iff_toNat_le]; omega)]
  by_cases some : pgRoundUp newsz < pgRoundUp oldsz
  · rw [if_pos some]
    rw [UInt64.lt_iff_toNat_lt] at some
    have unit : (4096 : UInt64).toNat = 4096 := rfl
    have many : ((pgRoundUp oldsz - pgRoundUp newsz) / 4096).toNat = count - final := by
      rw [UInt64.toNat_div, UInt64.toNat_sub_of_le, unit, oldUp, newUp]
      · omega
      · rw [UInt64.le_iff_toNat_le]
        omega
    dsimp only
    rw [extend_truncate (many ▸ by omega)]
    obtain ⟨after, done, changes⟩ := space.unmap fewer newUp many
    refine ⟨after, ?_, changes⟩
    simp only [done, bind, Except.bind]
    rfl
  · rw [UInt64.lt_iff_toNat_lt] at some
    obtain rfl : final = count := by omega
    rw [if_neg (by rw [UInt64.lt_iff_toNat_lt]; exact some)]
    exact ⟨ram, rfl, .refl space⟩

theorem uvmdealloc_pages (space : Space ram root count) (old : oldsz.toNat = 4096 * count)
    (new : newsz.toNat = 4096 * final) (fewer : final ≤ count) :
    ∃ sz after, uvmdealloc root oldsz newsz ram = .ok (sz, after) ∧
      Changes root final ram count after final := by
  by_cases same : oldsz ≤ newsz
  · refine ⟨oldsz, ram, if_pos same, ?_⟩
    rw [UInt64.le_iff_toNat_le] at same
    obtain rfl : final = count := by omega
    exact .refl space
  · obtain ⟨after, done, changes⟩ := uvmdealloc_spec space (.of_pages old)
      (.of_pages new) (UInt64.not_le.mp same)
    exact ⟨newsz, after, done, changes⟩

/-! uvmalloc() -/

theorem memset_filled (ram : Ram) (page : Page)
      (apart : pgRoundDown a ≠ page.addr) :
    ((Ram.memset { ram with denied := denied, free := free } page
      first).memset page value).word a = ram.word a :=
  (if_neg apart).trans (if_neg apart)

theorem user_perm (small : perm.toNat < 2 ^ 10) :
    (pteR ||| pteU ||| perm).toNat < 2 ^ 10 ∧ (pteR ||| pteU ||| perm) &&& pteR ≠ 0 := by
  constructor
  · rw [UInt64.toNat_or]
    exact Nat.or_lt_two_pow (by decide) small
  · intro zero
    have bit := congrArg (fun flags : UInt64 => flags.toNat.testBit 1) zero
    have two : Nat.testBit 2 1 = true := by decide
    simp [pteR, two] at bit

theorem uvmallocFrom_spec (rounds : Nat) (space : Space ram root middle) (more : count ≤ middle)
    (here : a.toNat = 4096 * middle) (old : oldsz.toNat = 4096 * count)
    (small : perm.toNat < 2 ^ 10) (enough : phystop / pgsize < rounds + middle) :
    ∃ sz after, uvmallocFrom root oldsz newsz perm rounds a ram = .ok (sz, after) ∧
      ((sz = newsz ∧ ∃ final, middle ≤ final ∧ newsz.toNat ≤ 4096 * final ∧
        (final = middle ∨ 4096 * final < newsz.toNat + 4096) ∧
        Changes root middle ram middle after final ∧
        Zeroed after root (pteR ||| pteU ||| perm ||| pteV) middle final) ∨ sz = 0 ∧
        Changes root count ram middle after count) := by
  -- by induction on the rounds; the pages before the address are there
  induction rounds generalizing middle a ram with
  | zero =>
    have bound := space.count_le
    omega
  | succ rounds induction =>
    have bound := space.count_small
    unfold uvmallocFrom
    by_cases less : a < newsz
    · rw [if_pos less]
      rcases kalloc_spec ram with ⟨denied, failed⟩ | ⟨page, free, denied, first, took⟩
      · rw [failed]
        have denies : Changes root count ram middle
          { ram with denied := denied } middle := .deny space denied
        obtain ⟨sz, after, done, changes⟩ := uvmdealloc_pages denies.space here old more
        refine ⟨0, after, ?_, .inr ⟨rfl, denies.trans changes⟩⟩
        simp only [done, bind, Except.bind]
        rfl
      · rw [took]
        have ⟨flags, reads⟩ := user_perm small
        obtain ⟨code, between, mapped, result⟩ := @Space.grow ram root page
          middle _ a space ((Ram.memset { ram with
            denied := denied, free := free } page
            0x0505050505050505).memset page 0) first
          (memset_filled ram page) rfl flags reads here
        dsimp only
        rw [mapped]
        dsimp only [bind, Except.bind]
        rcases result with ⟨rfl, grown, mapsTo, filled⟩ | ⟨rfl, after, freed, undone⟩
        · rw [if_neg (not_not.mpr rfl)]
          have next := @next_toNat a (by omega)
          obtain ⟨sz, after, done, results⟩ := @induction between
            (middle + 1) (a + 4096) grown.space (by omega) (by omega)
            (by omega)
          refine ⟨sz, after, done, ?_⟩
          rcases results with ⟨rfl, final, above, covers, tight, changes, zeroed⟩ | ⟨rfl, undone⟩
          · refine .inl ⟨rfl, final, by omega, covers, .inr ?_,
              grown.trans (changes.weaken (Nat.le_succ _)), ?_⟩
            · rw [UInt64.lt_iff_toNat_lt] at less
              omega
            · intro n low high
              by_cases same : n.val = middle
              · have found := mapsTo n same
                refine ⟨_, (changes.below n (by omega)).trans found, rfl,
                  fun inside => ?_⟩
                rw [changes.words (by omega) found inside, filled inside]
                exact if_pos inside
              · exact zeroed n (by omega) high
          · exact .inr ⟨rfl, (grown.weaken more).trans undone⟩
        · rw [if_pos (by decide), freed]
          obtain ⟨sz, final, done, changes⟩ := uvmdealloc_pages undone.space here old more
          refine ⟨0, final, ?_, .inr ⟨rfl, (undone.weaken more).trans changes⟩⟩
          simp only [done]
          rfl
    · rw [if_neg less]
      rw [UInt64.lt_iff_toNat_lt] at less
      exact ⟨newsz, ram, rfl, .inl ⟨rfl, middle, le_rfl, by omega, .inl rfl,
        .refl space, fun n low high => absurd high (Nat.not_lt.mpr low)⟩⟩

/-- uvmalloc() adds pages of zeroes up to the new size, or takes back those that
it has added. -/
theorem uvmalloc_spec (space : Space ram root count) (old : Sized oldsz count)
    (more : oldsz ≤ newsz) (small : perm.toNat < 2 ^ 10) :
    ∃ sz after, uvmalloc root oldsz newsz perm ram = .ok (sz, after) ∧
      ((sz = newsz ∧ ∃ final, count ≤ final ∧ Sized newsz final ∧
        Changes root count ram count after final ∧
        Zeroed after root (pteR ||| pteU ||| perm ||| pteV) count final) ∨ sz = 0 ∧
        Changes root count ram count after count) := by
  have bound := space.count_small
  have up := old.roundUp (by omega)
  have covers := old.covers
  have tight := old.tight
  unfold uvmalloc
  rw [if_neg (UInt64.not_lt.mpr more)]
  rw [UInt64.le_iff_toNat_le] at more
  obtain ⟨sz, after, done, result⟩ := @uvmallocFrom_spec ram root count count
    (pgRoundUp oldsz) perm (pgRoundUp oldsz) newsz rounds space le_rfl up up small (by
      have enough : phystop / pgsize < rounds := by decide
      omega)
  refine ⟨sz, after, done, result.imp_left (And.imp_right ?_)⟩
  rintro ⟨final, above, whole, ends, changes, zeroed⟩
  exact ⟨final, above, ⟨whole, by omega⟩, changes, zeroed⟩

end

end Xv6Lottery.Vm
