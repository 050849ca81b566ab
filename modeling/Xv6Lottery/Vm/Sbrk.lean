import Xv6Lottery.Vm.Free
import Xv6Lottery.Vm.UserMemory

/-! growproc() -/

namespace Xv6Lottery.Vm

structure ProcSpace (ram : Ram) (p : Image) : Prop where
  space : Space ram p.pagetable (pages p.sz)
  size : p.sz ≤ pgRoundUp p.sz
  trapframe : ∃ leaf, view ram p.pagetable trapframePage = some leaf ∧ leaf.flags &&& pteU = 0
  trampoline : ∃ leaf, view ram p.pagetable trampolinePage = some leaf ∧ leaf.flags &&& pteU = 0

def userByte (ram : Ram) (root : Page) (x : Nat) : Option UInt8 :=
  (access (view ram root) (fun _ => true) x).map ram.byte

structure Resized (ram : Ram) (p : Image) (n : Int32) (after : Ram) (q : Image) : Prop where
  size : (q.sz.toNat : Int) = p.sz.toNat + n.toInt
  mapped : ∀ m < trapframePage, view after q.pagetable m ≠ none ↔ m.val < pages q.sz
  old : ∀ x < p.sz.toNat, x < q.sz.toNat → userByte after q.pagetable x = userByte ram p.pagetable x
  new : ∀ x, pages p.sz ≤ x / pgsize → x / pgsize < pages q.sz →
    userByte after q.pagetable x = some 0

structure Untouched (ram : Ram) (p : Image) (after : Ram) (q : Image) : Prop where
  image : q = p
  mappings : view after p.pagetable = view ram p.pagetable
  bytes : ∀ x < trapframe.toNat, userByte after p.pagetable x = userByte ram p.pagetable x

/-- growproc() returns 0 if it has changed the size, and -1 if it has changed
nothing. -/
structure Reports (ram : Ram) (p : Image) (n : Int32) (code : Int)
    (after : Ram) (q : Image) : Prop where
  success : code = 0 ↔ Resized ram p n after q
  failure : code ≠ 0 → code = -1 ∧ Untouched ram p after q

section

variable {ram after : Ram} {root page : Page} {p : Image} {n : Int32}
  {count final keeps x : Nat} {sz : UInt64}

/-! Sizes. -/

theorem roundUp_room (size : sz ≤ pgRoundUp sz) : sz.toNat + 4095 < 2 ^ 64 := by
  have unit : (4096 : UInt64).toNat = 4096 := rfl
  have one : (1 : UInt64).toNat = 1 := rfl
  have bound := sz.toNat_lt
  have down : (pgRoundUp sz).toNat = _ := pgRoundDown_toNat (sz + 4096 - 1)
  rw [UInt64.toNat_sub, UInt64.toNat_add, unit, one, pgsize] at down
  rw [UInt64.le_iff_toNat_le] at size
  omega

theorem Sized.of_size (size : sz ≤ pgRoundUp sz) : Sized sz (pages sz) := by
  have up := pgRoundUp_toNat (roundUp_room size)
  constructor
  all_goals
    rw [pages, pgsize, up]
    omega

theorem Sized.pages_eq (sized : Sized sz count) (bound : count < 2 ^ 50) : pages sz = count := by
  rw [pages, pgsize, sized.roundUp bound]
  omega

theorem Sized.size (sized : Sized sz count) (bound : count < 2 ^ 50) : sz ≤ pgRoundUp sz := by
  rw [UInt64.le_iff_toNat_le, sized.roundUp bound]
  exact sized.covers

theorem ProcSpace.sized (space : ProcSpace ram p) : Sized p.sz (pages p.sz) := .of_size space.size

theorem ProcSpace.addressSpace (isSpace : ProcSpace ram p) : AddressSpace ram p.pagetable p.sz where
  table := isSpace.space.table
  user := isSpace.space.user
  nothing := isSpace.space.nothing
  trapframe := isSpace.trapframe
  trampoline := isSpace.trampoline
  apart := fun {n leaf} less found =>
    have frame : Frame ram p.pagetable (pages p.sz) leaf.frame :=
      ⟨n, less, leaf, found, rfl⟩
    ⟨(isSpace.space.apart frame).1, isSpace.space.nonzero (.inr (.inr frame))⟩
  distinct := isSpace.space.distinct

theorem ProcSpace.changes (isSpace : ProcSpace ram p) (sized : Sized sz final)
    (changes : Changes p.pagetable keeps ram (pages p.sz) after final) :
    ProcSpace after { p with sz := sz } := by
  have bound := changes.space.count_small
  have number := sized.pages_eq (by omega)
  refine ⟨?_, sized.size (by omega), ?_, ?_⟩
  · rw [number]
    exact changes.space
  · rw [changes.above trapframePage le_rfl]
    exact isSpace.trapframe
  · rw [changes.above trampolinePage trapframe_lt.le]
    exact isSpace.trampoline

/-! The bytes of a page. -/

theorem byte_congr (same : ∀ {a}, pgRoundDown a = page.addr → after.word a = ram.word a)
    (small : x < 4096) : after.byte (page.byte x) = ram.byte (page.byte x) := by
  rw [Ram.byte, Ram.byte, same]
  rw [wordOf_page, page.byte_page small]

theorem byte_zero (zero : ∀ {a}, pgRoundDown a = page.addr → ram.word a = 0)
    (small : x < 4096) : ram.byte (page.byte x) = 0 := by
  rw [Ram.byte, zero]
  · simp [Digits.digit]
  · rw [wordOf_page, page.byte_page small]

theorem userByte_some (number : x / pgsize = m.val) (found : view ram root m = some leaf) :
    userByte ram root x = some (ram.byte (leaf.frame.byte (x % pgsize))) := by
  have frame : frameOf (view ram root) (fun _ => true) (x / pgsize) = some leaf.frame := by
    rw [frameOf, number, dif_pos m.isLt, found]
    rfl
  rw [userByte, access, frame]
  rfl

theorem userByte_none (number : x / pgsize = m.val) (missing : view ram root m = none) :
    userByte ram root x = none := by
  rw [userByte, access, frameOf, number, dif_pos m.isLt, missing]
  rfl

theorem Changes.userByte (changes : Changes root keeps ram count after final)
    (less : x / pgsize < keeps) (bound : keeps ≤ trapframePage.val) :
    userByte after root x = userByte ram root x := by
  have inside : x / pgsize < maxva / pgsize :=
    (less.trans_le bound).trans trapframePage.isLt
  have same := changes.below ⟨x / pgsize, inside⟩ less
  cases found : view ram root ⟨x / pgsize, inside⟩ with
  | none =>
    rw [userByte_none rfl found, userByte_none rfl (same.trans found)]
  | some leaf =>
    rw [userByte_some rfl found, userByte_some rfl (same.trans found)]
    have words : ∀ {a}, pgRoundDown a = leaf.frame.addr →
      after.word a = ram.word a := changes.words less found
    rw [byte_congr (x := x % pgsize) words (Nat.mod_lt _ (by decide))]

theorem Zeroed.userByte (zeroed : Zeroed ram root flags count final) (low : count ≤ x / pgsize)
    (high : x / pgsize < final) (bound : final ≤ trapframePage.val) :
    userByte ram root x = some 0 := by
  have inside : x / pgsize < maxva / pgsize :=
    (high.trans_le bound).trans trapframePage.isLt
  obtain ⟨leaf, found, _, zero⟩ := zeroed ⟨x / pgsize, inside⟩ low high
  rw [userByte_some rfl found, byte_zero (x := x % pgsize) zero (Nat.mod_lt _ (by decide))]

theorem Space.mapped_iff (space : Space ram root count) (low : m < trapframePage) :
    view ram root m ≠ none ↔ m.val < count := by
  constructor
  · intro found
    refine Nat.lt_of_not_le fun above => found ?_
    exact space.nothing m above low
  · intro less
    obtain ⟨leaf, found, _⟩ := space.user m less
    rw [found]
    nofun

theorem Changes.untouched (isSpace : ProcSpace ram p)
    (changes : Changes p.pagetable (pages p.sz) ram (pages p.sz) after (pages p.sz)) :
    Untouched ram p after p where
  image := rfl
  mappings := by
    funext m
    by_cases less : m.val < pages p.sz
    · exact changes.below m less
    · by_cases low : m < trapframePage
      · rw [changes.space.nothing m (Nat.not_lt.mp less) low,
          isSpace.space.nothing m (Nat.not_lt.mp less) low]
      · exact changes.above m (not_lt.mp low)
  bytes := fun x below => by
    by_cases less : x / pgsize < pages p.sz
    · exact changes.userByte less isSpace.space.bound
    · have value : trapframe.toNat = 4096 * trapframePage.val := by decide
      have low : x / pgsize < trapframePage.val := by
        change x / 4096 < _
        omega
      have inside : x / pgsize < maxva / pgsize :=
        low.trans trapframePage.isLt
      have nothing := changes.space.nothing ⟨x / pgsize, inside⟩ (Nat.not_lt.mp less) low
      have before := isSpace.space.nothing ⟨x / pgsize, inside⟩ (Nat.not_lt.mp less) low
      rw [userByte_none rfl nothing, userByte_none rfl before]

/-! growproc() -/

theorem extend_toNat (n : Int32) : (extend n).toNat = (n.toInt % 2 ^ 64).toNat := rfl

theorem ProcSpace.resized_grow (isSpace : ProcSpace ram p)
    (size : (sz.toNat : Int) = p.sz.toNat + n.toInt) (sized : Sized sz final)
    (changes : Changes p.pagetable (pages p.sz) ram (pages p.sz) after final)
    (zeroed : Zeroed after p.pagetable flags (pages p.sz) final) :
    Resized ram p n after { p with sz := sz } := by
  have bound := changes.space.count_small
  have number := sized.pages_eq (by omega)
  have covers := isSpace.sized.covers
  refine ⟨size, fun m low => ?_, fun x less _ => ?_, fun x low high => ?_⟩
  · rw [number]
    exact changes.space.mapped_iff low
  · refine changes.userByte ?_ isSpace.space.bound
    rw [pgsize]
    omega
  · rw [number] at high
    exact zeroed.userByte low high changes.space.bound

theorem Resized.shrink (size : (sz.toNat : Int) = p.sz.toNat + n.toInt)
    (sized : Sized sz final) (fewer : final ≤ pages p.sz)
    (changes : Changes p.pagetable final ram (pages p.sz) after final) :
    Resized ram p n after { p with sz := sz } := by
  have bound := changes.space.count_small
  have number := sized.pages_eq (by omega)
  have covers := sized.covers
  refine ⟨size, fun m low => ?_, fun x _ less => ?_, fun x low high => ?_⟩
  · rw [number]
    exact changes.space.mapped_iff low
  · refine changes.userByte ?_ changes.space.bound
    dsimp only at less
    rw [pgsize]
    omega
  · rw [number] at high
    exact absurd (high.trans_le fewer) (Nat.not_lt.mpr low)

theorem growproc_cases (isSpace : ProcSpace ram p) (n : Int32) :
    ∃ code q after, growproc p n ram = .ok (code, q, after) ∧ ProcSpace after q ∧
      (code = 0 ∧ 0 ≤ (p.sz.toNat : Int) + n.toInt ∧ Resized ram p n after q ∨ code = -1 ∧ 0 <
        n.toInt ∧ Untouched ram p after q ∨ code = 0 ∧ (p.sz.toNat : Int) + n.toInt < 0 ∧ q = p ∧
        after = ram) := by
  have small := isSpace.space.count_small
  have sized := isSpace.sized
  have covers := sized.covers
  have low := n.le_toInt
  have high := n.toInt_lt
  have positive : n > 0 ↔ 0 < n.toInt := Int32.lt_iff_toInt_lt
  have negative : n < 0 ↔ n.toInt < 0 := Int32.lt_iff_toInt_lt
  have sum : (p.sz + extend n).toNat = (p.sz.toNat + (n.toInt % 2 ^ 64).toNat) % 2 ^ 64 := by
    rw [UInt64.toNat_add, extend_toNat]
  unfold growproc
  by_cases grows : n > 0
  · have size : ((p.sz + extend n).toNat : Int) = p.sz.toNat + n.toInt := by
      rw [positive] at grows
      omega
    have more : p.sz ≤ p.sz + extend n := by
      rw [positive] at grows
      rw [UInt64.le_iff_toNat_le]
      omega
    rw [if_pos grows]
    rw [positive] at grows
    obtain ⟨sz, after, done, result⟩ := uvmalloc_spec isSpace.space sized more
      (by decide : pteW.toNat < 2 ^ 10)
    rw [done]
    dsimp only [bind, Except.bind]
    rcases result with ⟨rfl, final, _, newSized, changes, zeroed⟩ | ⟨rfl, changes⟩
    · have some : p.sz + extend n ≠ 0 := by
        intro zero
        rw [zero] at size
        have value : (0 : UInt64).toNat = 0 := rfl
        omega
      rw [if_neg some]
      exact ⟨0, _, after, rfl, isSpace.changes newSized changes, .inl ⟨rfl,
        by omega, isSpace.resized_grow size newSized changes zeroed⟩⟩
    · rw [if_pos rfl]
      exact ⟨-1, p, after, rfl, isSpace.changes sized changes,
        .inr (.inl ⟨rfl, grows, changes.untouched isSpace⟩)⟩
  · rw [if_neg grows]
    rw [positive] at grows
    by_cases shrinks : n < 0
    · rw [if_pos shrinks]
      rw [negative] at shrinks
      by_cases enough : 0 ≤ (p.sz.toNat : Int) + n.toInt
      · have size : ((p.sz + extend n).toNat : Int) = p.sz.toNat + n.toInt := by
          omega
        have newSized : Sized (p.sz + extend n) (((p.sz + extend n).toNat + 4095) / 4096) :=
          ⟨by omega, by omega⟩
        obtain ⟨after, done, changes⟩ := uvmdealloc_spec isSpace.space sized
          newSized (by rw [UInt64.lt_iff_toNat_lt]; omega)
        rw [done]
        exact ⟨0, _, after, rfl, isSpace.changes newSized changes, .inl ⟨rfl,
          enough, .shrink size newSized (by omega) changes⟩⟩
      · have wraps : p.sz ≤ p.sz + extend n := by
          rw [UInt64.le_iff_toNat_le]
          omega
        rw [uvmdealloc, if_pos wraps]
        exact ⟨0, p, ram, rfl, isSpace, .inr (.inr ⟨rfl, not_le.mp enough, rfl, rfl⟩)⟩
    · rw [if_neg shrinks]
      rw [negative] at shrinks
      have zero : n.toInt = 0 := by omega
      refine ⟨0, p, ram, rfl, isSpace, .inl ⟨rfl, by omega, ?_⟩⟩
      refine ⟨by omega, fun m => isSpace.space.mapped_iff, fun x _ _ => rfl,
        fun x low high => absurd high (Nat.not_lt.mpr low)⟩

/-- growproc() does what it reports unless it is asked to shrink memory by more
than there is. -/
theorem growproc_reports_iff (isSpace : ProcSpace ram p) (n : Int32) :
    ∃ code q after, growproc p n ram = .ok (code, q, after) ∧
      (Reports ram p n code after q ↔ 0 ≤ (p.sz.toNat : Int) + n.toInt) := by
  obtain ⟨code, q, after, done, _, result⟩ := growproc_cases isSpace n
  refine ⟨code, q, after, done, ?_⟩
  rcases result with ⟨rfl, enough, resized⟩ | ⟨rfl, grows, untouched⟩ | ⟨rfl, less, rfl, rfl⟩
  · exact iff_of_true ⟨iff_of_true rfl resized, fun differs =>
      absurd rfl differs⟩ enough
  · refine iff_of_true ⟨iff_of_false (by decide) fun resized => ?_,
      fun _ => ⟨rfl, untouched⟩⟩ (by omega)
    have size := resized.size
    rw [untouched.image] at size
    omega
  · refine iff_of_false (fun reports => ?_) (not_le.mpr less)
    have size := (reports.success.mp rfl).size
    omega

end

/-! A process of one page. -/

theorem aligned_freePage (i : Fin 32) :
    (UInt64.ofNat (0x80001000 + 4096 * i.val)).toNat % pgsize = 0 := by
  have less := i.isLt
  rw [UInt64.toNat_ofNat', pgsize]
  omega

def freePage (i : Fin 32) : Page where
  addr := UInt64.ofNat (0x80001000 + 4096 * i.val)
  aligned := aligned_freePage i

theorem freePage_toNat (i : Fin 32) : (freePage i).addr.toNat = 0x80001000 + 4096 * i.val := by
  have less := i.isLt
  rw [freePage, UInt64.toNat_ofNat']
  omega

theorem freePage_injective : Function.Injective freePage := by
  intro i j same
  have values := congrArg (fun page : Page => page.addr.toNat) same
  simp only [freePage_toNat] at values
  exact Fin.ext (by omega)

def boot : Ram where
  word := fun _ => 0
  free := (List.finRange 32).map freePage
  denied := []
  kernelEnd := 0x80001000

theorem boot_allocator : Allocator boot where
  nodup := (List.nodup_finRange 32).map freePage_injective
  inRam := fun {page} member => by
    obtain ⟨i, _, rfl⟩ := List.mem_map.mp member
    have less := i.isLt
    have low : boot.kernelEnd.toNat = 0x80001000 := by decide
    refine ⟨?_, ?_⟩
    · rw [UInt64.le_iff_toNat_le, freePage_toNat]
      omega
    · rw [freePage_toNat, phystop]
      omega
  kernelEnd := by decide

def makeProcess (text frame : Page) (ram : Ram) : Except Panic (Option (UInt64 × Page × Ram)) := do
  let (result, ram) ← procPagetable text frame ram
  match result with
  | none => return none
  | some pagetable =>
    let (sz, ram) ← uvmalloc pagetable 0 4096 pteW ram
    return some (sz, pagetable, ram)

def bootText : Page := youngRoot

theorem exists_procSpace : ∃ ram p, ProcSpace ram p ∧ p.sz = 4096 ∧ bootText ∉ ram.free := by
  have played : (makeProcess bootText (freePage 31) boot).map
      (Option.map Prod.fst) = .ok (some 4096) := by
    decide +kernel
  obtain ⟨result, made, done, rest⟩ := procPagetable_spec boot_allocator bootText (freePage 31)
  unfold makeProcess at played
  rw [done] at played
  cases result with
  | none => cases played
  | some root =>
    obtain ⟨created, tops⟩ := rest
    obtain ⟨sz, after, grows, result⟩ := @uvmalloc_spec made root 0 pteW 0
      4096 created.space (.of_pages rfl) (by decide) (by decide)
    dsimp only [bind, Except.bind] at played
    rw [grows] at played
    have success : sz = 4096 := Option.some.inj (Except.ok.inj played)
    rcases result with ⟨_, final, _, sized, changes, _⟩ | ⟨zero, _⟩
    · have number := sized.pages_eq (changes.space.count_small.trans (by decide))
      have size : (4096 : UInt64) ≤ pgRoundUp 4096 := by decide
      refine ⟨after, ⟨root, 4096⟩, ⟨?_, size, ?_, ?_⟩, rfl, fun member => ?_⟩
      · rw [number]
        exact changes.space
      · rw [changes.above trapframePage le_rfl, tops.trapframe]
        exact ⟨_, rfl, by dsimp only; decide⟩
      · rw [changes.above trampolinePage trapframe_lt.le, tops.trampoline]
        exact ⟨_, rfl, by dsimp only; decide⟩
      · have low := (changes.space.inRam (.inl member)).1
        rw [changes.kernelEnd, created.kernelEnd] at low
        exact absurd low (by decide)
    · rw [zero] at success
      exact absurd success (by decide)

/-- sbrk(-4095) of a process of one page. -/
theorem growproc_reports_onePage :
    ∃ ram p, ProcSpace ram p ∧ ∃ code q after, growproc p (-4095) ram = .ok (code, q, after) ∧
      Reports ram p (-4095) code after q := by
  obtain ⟨ram, p, isSpace, size, _⟩ := exists_procSpace
  obtain ⟨code, q, after, done, reports⟩ :=
    growproc_reports_iff isSpace (-4095)
  refine ⟨ram, p, isSpace, code, q, after, done, reports.mpr ?_⟩
  rw [size]
  decide

/-- sbrk(-4097) of a process of one page changes nothing, and succeeds. -/
theorem growproc_ignores_shrink :
    ∃ ram p, ProcSpace ram p ∧ growproc p (-4097) ram = .ok (0, p, ram) ∧
      ¬Reports ram p (-4097) 0 ram p := by
  obtain ⟨ram, p, isSpace, size, _⟩ := exists_procSpace
  have wraps : p.sz ≤ p.sz + extend (-4097) := by
    rw [size]
    decide
  refine ⟨ram, p, isSpace, ?_, fun reports => ?_⟩
  · unfold growproc
    rw [if_neg (by decide), if_pos (by decide), uvmdealloc, if_pos wraps]
    rfl
  · have resized := (reports.success.mp rfl).size
    rw [size] at resized
    exact absurd resized (by decide)

end Xv6Lottery.Vm
