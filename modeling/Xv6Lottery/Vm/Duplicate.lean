import Xv6Lottery.Vm.Sbrk

/-! uvmcopy() -/

namespace Xv6Lottery.Vm

structure Source (ram : Ram) (old : Page) (count : Nat) : Prop where
  table : Table ram old
  user : ∀ n : Vpn, n.val < count → ∃ leaf, view ram old n = some leaf ∧ leaf.flags &&& pteR ≠ 0

def Used (ram : Ram) (root : Page) (count : Nat) (page : Page) : Prop :=
  Node ram root page ∨ Frame ram root count page

/-- Pages have the flags and the bytes of those of another address space. -/
def Copied (ram : Ram) (old : Page) (after : Ram) (new : Page) (first final : Nat) : Prop :=
  ∀ n : Vpn, first ≤ n.val → n.val < final → ∃ leaf other,
    view ram old n = some leaf ∧ view after new n = some other ∧
      other.flags = leaf.flags ∧ ∀ off < 4096,
        after.byte (other.frame.byte off) = ram.byte (leaf.frame.byte off)

section

variable {ram between after : Ram} {root old new page mem : Page}
  {count middle : Nat} {n : Vpn} {leaf : Leaf} {i sz : UInt64}

theorem Space.source (space : Space ram root count) :
    Source ram root count := ⟨space.table, space.user⟩

/-! Memory that is not in a pool of pages stays when only the pool changes. -/

section Kept

variable (pool : Page → Prop) (outside : ∀ {a}, (∀ {page}, pgRoundDown a = page.addr → ¬pool page) →
    after.word a = ram.word a)

include outside

theorem words_kept (apart : ¬pool page) (inside : pgRoundDown a = page.addr) :
    after.word a = ram.word a := by
  refine outside fun {other} same => ?_
  rw [Page.eq_of_addr (same.symm.trans inside)]
  exact apart

theorem entries_kept (apart : ¬pool page) (i : Fin 512) :
    after.entries page i = ram.entries page i :=
  words_kept pool outside apart (page.entry_page i)

theorem byte_kept (apart : ¬pool page) (small : off < 4096) :
    after.byte (page.byte off) = ram.byte (page.byte off) :=
  byte_congr (fun inside => words_kept pool outside apart inside) small

theorem view_kept (apart : ∀ {page}, Node ram old page → ¬pool page) :
    view after old = view ram old :=
  view_outside fun node => entries_kept pool outside (apart node) _

theorem used_kept (apart : ∀ {page}, Node ram old page → ¬pool page) :
    Used after old count page ↔ Used ram old count page :=
  or_congr (node_outside fun node => entries_kept pool outside (apart node) _)
    (frame_congr (view_kept pool outside apart))

theorem Source.kept (source : Source ram old count)
    (apart : ∀ {page}, Node ram old page → ¬pool page) : Source after old count where
  table := source.table.outside fun node =>
    entries_kept pool outside (apart node) _
  user := by
    rw [view_kept pool outside apart]
    exact source.user

end Kept

/-! The page of one round. -/

theorem memmove_free (ram : Ram) (dst : UInt64) (src : Nat → UInt8)
    (count : Nat) : (ram.memmove dst src count).free = ram.free := by
  induction count with
  | zero => rfl
  | succ count induction => exact induction

theorem memmove_kernelEnd (ram : Ram) (dst : UInt64) (src : Nat → UInt8) (count : Nat) :
    (ram.memmove dst src count).kernelEnd = ram.kernelEnd := by
  induction count with
  | zero => rfl
  | succ count induction => exact induction

theorem Page.byte_zero (page : Page) : page.byte 0 = page.addr :=
  UInt64.add_zero _

theorem pteFlags_lt (pte : UInt64) : (pteFlags pte).toNat < 2 ^ 10 := by
  rw [pteFlags, UInt64.toNat_and]
  exact Nat.lt_succ_of_le Nat.and_le_right

theorem or_pteV_of_and (valid : flags &&& pteV ≠ 0) : flags ||| pteV = flags := by
  have one : ∀ i, pteV.toNat.testBit i = decide (0 = i) := fun i =>
    @Nat.testBit_two_pow 0 i
  have bit : flags.toNat.testBit 0 = true := by
    by_contra clear
    refine valid (UInt64.toNat_inj.mp (Nat.eq_of_testBit_eq fun i => ?_))
    rw [UInt64.toNat_and, Nat.testBit_and, one, UInt64.toNat_zero, Nat.zero_testBit]
    by_cases first : 0 = i
    · rw [← first, Bool.eq_false_iff.mpr clear, Bool.false_and]
    · rw [decide_eq_false first, Bool.and_false]
  refine UInt64.toNat_inj.mp (Nat.eq_of_testBit_eq fun i => ?_)
  rw [UInt64.toNat_or, Nat.testBit_or, one]
  by_cases first : 0 = i
  · rw [← first, bit, Bool.true_or]
  · rw [decide_eq_false first, Bool.or_false]

theorem view_flags (found : view ram root n = some leaf) :
    leaf.flags.toNat < 2 ^ 10 ∧ leaf.flags ||| pteV = leaf.flags := by
  obtain ⟨pte, _, decoded⟩ := Option.bind_eq_some_iff.mp found
  have ⟨valid, _, flags⟩ := decode_some decoded
  rw [← flags]
  refine ⟨pteFlags_lt pte, or_pteV_of_and ?_⟩
  rw [pteFlags_and _ (by decide)]
  exact valid

theorem Source.walk (source : Source ram old count) (less : middle < count)
    (room : count < 2 ^ 26) (here : i.toNat = 4096 * middle) :
    ∃ pte leaf, ∃ n : Vpn, n.val = middle ∧ walk old i false ram = .ok (pte, ram) ∧ pte ≠ 0 ∧
      ram.word pte &&& pteV ≠ 0 ∧ pte2pa (ram.word pte) = leaf.frame ∧ pteFlags (ram.word pte) =
      leaf.flags ∧ view ram old n = some leaf ∧ leaf.flags &&& pteR ≠ 0 := by
  have small : i.toNat < maxva := by
    rw [maxva]
    omega
  have number : (vpn i small).val = middle := by
    change i.toNat / 4096 = middle
    omega
  obtain ⟨leaf, found, reads⟩ := source.user (vpn i small) (by omega)
  rcases walk_read source.table small with
    ⟨_, unmapped⟩ | ⟨pte, done, nonzero, points⟩
  · cases unmapped.symm.trans found
  · obtain ⟨valid, frame, flags⟩ :=
      decode_some (points.view_eq.symm.trans found)
    exact ⟨pte, leaf, vpn i small, number, done, nonzero, valid, frame, flags, found, reads⟩

theorem Space.undo (space : Space ram new middle) (here : i.toNat = 4096 * middle) :
    ∃ after, uvmcopyUndo new i ram = .ok (-1, after) ∧ Changes new 0 ram middle after 0 := by
  have unit : (4096 : UInt64).toNat = 4096 := rfl
  have many : (i / 4096).toNat = middle - 0 := by
    rw [UInt64.toNat_div, unit]
    omega
  obtain ⟨after, done, changes⟩ := @Space.unmap ram new middle 0 0 (i / 4096)
    space (Nat.zero_le _) rfl many
  refine ⟨after, ?_, changes⟩
  unfold uvmcopyUndo
  rw [done]
  rfl

theorem uvmcopyFrom_spec (rounds : Nat) (space : Space ram new middle)
    (source : Source ram old count)
    (apart : ∀ {page}, Used ram old count page → ¬Pool ram new middle page)
    (fewer : middle ≤ count) (room : count < 2 ^ 26) (sized : Sized sz count)
    (here : i.toNat = 4096 * middle) (enough : count < rounds + middle) :
    ∃ code after, uvmcopyFrom old new sz rounds i ram = .ok (code, after) ∧
      (code = 0 ∧ Changes new middle ram middle after count ∧
        Copied ram old after new middle count ∨ code = -1 ∧ Changes new 0 ram middle after 0) := by
  -- by induction on the rounds; the pages before the address are copied
  induction rounds generalizing middle i ram with
  | zero => omega
  | succ rounds induction =>
    have bound := space.count_small
    have covers := sized.covers
    have tight := sized.tight
    unfold uvmcopyFrom
    by_cases more : i < sz
    · have less : middle < count := by
        rw [UInt64.lt_iff_toNat_lt] at more
        omega
      obtain ⟨pte, leaf, n, number, walked, nonzero, valid, frame, flags,
        found, reads⟩ := source.walk less room here
      rw [if_pos more, walked]
      dsimp only [bind, Except.bind]
      rw [if_neg nonzero, if_neg valid, frame, flags]
      have used : Used ram old count leaf.frame :=
        .inr ⟨n, by omega, leaf, found, rfl⟩
      rcases kalloc_spec ram with ⟨denied, failed⟩ | ⟨mem, free, denied, first, took⟩
      · rw [failed]
        have denies : Changes new 0 ram middle
          { ram with denied := denied } middle := .deny space denied
        obtain ⟨after, undone, changes⟩ := denies.space.undo here
        exact ⟨-1, after, undone, .inr ⟨rfl, denies.trans changes⟩⟩
      · rw [took]
        dsimp only
        have isFree : Pool ram new middle mem := by
          refine .inl ?_
          rw [first]
          exact List.mem_cons_self
        have other : leaf.frame ≠ mem := by
          rintro rfl
          exact apart used isFree
        generalize taken : Ram.memset { ram with
          denied := denied, free := free } mem 0x0505050505050505 = fresh
        have freshWords : ∀ {a}, pgRoundDown a ≠ mem.addr → fresh.word a = ram.word a := by
          intro a differs
          rw [← taken]
          exact if_neg differs
        generalize filling : fresh.memmove mem.addr
          (fun j => fresh.byte (leaf.frame.addr + UInt64.ofNat j)) pgsize = filled
        have filledFree : ram.free = mem :: filled.free := by
          rw [← filling, memmove_free, ← taken]
          exact first
        have filledEnd : filled.kernelEnd = ram.kernelEnd := by
          rw [← filling, memmove_kernelEnd, ← taken]
          rfl
        have filledWords : ∀ {a}, pgRoundDown a ≠ mem.addr → filled.word a = ram.word a := by
          intro a differs
          rw [← filling, ← mem.byte_zero, memmove_word _ _ _ (by decide)
            differs]
          exact freshWords differs
        have bytes : ∀ off < 4096, filled.byte (mem.byte off) = ram.byte (leaf.frame.byte off) := by
          intro off small
          have written := memmove_written fresh mem
            (fun j => fresh.byte (leaf.frame.addr + UInt64.ofNat j))
            (n := pgsize) (by decide : 0 + pgsize ≤ 4096) small
          rw [Nat.zero_add, mem.byte_zero, filling] at written
          rw [written]
          refine byte_congr (fun {a} inside => freshWords ?_) small
          rw [inside]
          exact fun same => other (Page.eq_of_addr same)
        have ⟨small, valid⟩ := view_flags found
        obtain ⟨code, between, mapped, result⟩ := space.grow filledFree
          filledWords filledEnd small reads here
        rw [mapped]
        dsimp only
        rcases result with ⟨rfl, grown, mapsTo, stays⟩ | ⟨rfl, after, freed, undone⟩
        · rw [if_neg (not_not.mpr rfl)]
          have next := @next_toNat i (by omega)
          have nodes : ∀ {page}, Node ram old page →
            ¬Pool ram new middle page := fun node => apart (.inl node)
          have sameView := view_kept _ grown.outside nodes
          obtain ⟨code, after, done, results⟩ := @induction between
            (middle + 1) (i + 4096) grown.space (source.kept _ grown.outside nodes)
            (fun isUsed pool => apart ((used_kept _ grown.outside nodes).mp isUsed)
              (grown.pool.mp pool)) less (by omega) (by omega)
          refine ⟨code, after, done, ?_⟩
          rcases results with ⟨rfl, changes, copied⟩ | ⟨rfl, changes⟩
          · refine .inl ⟨rfl, grown.trans (changes.weaken (Nat.le_succ _)), fun m low high => ?_⟩
            by_cases same : m.val = middle
            · obtain rfl : m = n := Fin.ext (same.trans number.symm)
              have target := mapsTo m same
              refine ⟨leaf, _, found, (changes.below m (by omega)).trans target, valid,
                fun off inside => ?_⟩
              have kept : ∀ {a}, pgRoundDown a = mem.addr →
                  after.word a = filled.word a := fun inPage =>
                (changes.words (by omega) target inPage).trans
                  (stays inPage)
              rw [byte_congr kept inside, bytes off inside]
            · obtain ⟨source, target, theirs, ours, equal, rest⟩ :=
                copied m (by omega) high
              rw [sameView] at theirs
              refine ⟨source, target, theirs, ours, equal, fun off inside => ?_⟩
              have isUsed : Used ram old count source.frame :=
                .inr ⟨m, high, source, theirs, rfl⟩
              rw [rest off inside, byte_kept _ grown.outside (apart isUsed) inside]
          · exact .inr ⟨rfl, (grown.weaken (Nat.zero_le _)).trans changes⟩
        · rw [if_pos (by decide), freed]
          obtain ⟨final, removed, changes⟩ := undone.space.undo here
          exact ⟨-1, final, removed, .inr ⟨rfl, (undone.weaken (Nat.zero_le _)).trans changes⟩⟩
    · rw [if_neg more]
      rw [UInt64.lt_iff_toNat_lt] at more
      obtain rfl : middle = count := by omega
      exact ⟨0, ram, rfl, .inl ⟨rfl, .refl space, fun m low high =>
        absurd high (Nat.not_lt.mpr low)⟩⟩

/-- uvmcopy() gives the new address space a copy of all pages, or none. -/
theorem uvmcopy_spec (space : Space ram new 0) (source : Source ram old count)
    (apart : ∀ {page}, Used ram old count page → ¬Pool ram new 0 page) (room : count < 2 ^ 26)
    (sized : Sized sz count) :
    ∃ code after, uvmcopy old new sz ram = .ok (code, after) ∧
      (code = 0 ∧ Changes new 0 ram 0 after count ∧ Copied ram old after new 0 count ∨ code = -1 ∧
        Changes new 0 ram 0 after 0) :=
  uvmcopyFrom_spec rounds space source apart (Nat.zero_le _) room sized rfl (by
      have enough : rounds = 2 ^ 26 + 1 := by decide
      omega)

end

end Xv6Lottery.Vm
