import Xv6Lottery.Vm.FiniteMap
import Xv6Lottery.Vm.UserMemory

/-! copyout(), copyin() and copyinstr() touch the memory of the process only, and
as they are asked to. -/

namespace Xv6Lottery.Vm

variable {ram : Ram} {root : Page}

def Allowed (map : Vpn → Option Leaf) (allows : UInt64 → Bool) (start count : Nat) : Prop :=
  ∀ x, start ≤ x → x < start + count → ∃ n : Vpn, n.val = x / pgsize ∧ ∃ leaf, map n = some leaf ∧
      allows leaf.flags = true

structure UserCopies (ram : Ram) (root : Page) : Prop where
  copyout : ∀ (dstva : UInt64) (src : Nat → UInt8) (len : UInt64),
    ∃ code after, copyout root dstva src len ram = .ok (code, after) ∧ (code = 0 ∨ code = -1) ∧
      (code = 0 ↔ Allowed (view ram root) writable dstva.toNat len.toNat) ∧ (code = 0 →
        Written (view ram root) ram after dstva.toNat src len.toNat) ∧
      (code = -1 → Confined (view ram root) ram after)
  copyin : ∀ (dst : Nat → UInt8) (srcva len : UInt64),
    ∃ code result, copyin root dst srcva len ram = .ok (code, result) ∧ (code = 0 ∨ code = -1) ∧
      (code = 0 ↔ Allowed (view ram root) readable srcva.toNat len.toNat) ∧
      (code = 0 → Holds ram root srcva.toNat result 0 len.toNat) ∧ Within dst result 0 len.toNat
  copyinstr : ∀ (dst : Nat → UInt8) (srcva max : UInt64),
    ∃ code result, copyinstr root dst srcva max ram = .ok (code, result) ∧ (code = 0 ∨ code = -1) ∧
      (code = 0 ↔ ∃ k < max.toNat, EndsAt ram root srcva.toNat k) ∧
      (∀ k, code = 0 → EndsAt ram root srcva.toNat k → Holds ram root srcva.toNat result 0 (k + 1) ∧
          Within dst result 0 (k + 1)) ∧ Within dst result 0 max.toNat

theorem access_isSome_iff :
    access map allows x ≠ none ↔ ∃ n : Vpn, n.val = x / pgsize ∧ ∃ leaf, map n = some leaf ∧
      allows leaf.flags = true := by
  constructor
  · intro reached
    obtain ⟨p, found⟩ := Option.ne_none_iff_exists'.mp reached
    obtain ⟨page, frame, _⟩ := Option.map_eq_some_iff.mp found
    obtain ⟨n, leaf, number, mapsTo, ok, _⟩ := frameOf_some frame
    exact ⟨n, number, leaf, mapsTo, ok⟩
  · rintro ⟨n, number, leaf, mapsTo, ok⟩
    have found : frameOf map allows (x / pgsize) = some leaf.frame := by
      rw [← number, frameOf, dif_pos n.isLt, mapsTo]
      exact if_pos ok
    rw [access, found]
    rintro ⟨⟩

theorem allowed_iff :
    Allowed map allows start count ↔ ∀ i < count, access map allows (start + i) ≠ none := by
  constructor
  · intro all i less
    exact access_isSome_iff.mpr (all _ (Nat.le_add_right ..) (by omega))
  · intro all x low high
    obtain ⟨i, rfl⟩ := Nat.exists_eq_add_of_le low
    exact access_isSome_iff.mp (all i (by omega))

theorem EndsAt.unique (first : EndsAt ram root start k) (second : EndsAt ram root start j) :
    k = j := by
  rcases Nat.le_total k j with below | above
  · obtain ⟨p, reached, nul⟩ := first k le_rfl
    obtain ⟨q, same, other⟩ := second k below
    cases reached.symm.trans same
    exact other.mp (nul.mpr rfl)
  · obtain ⟨p, reached, nul⟩ := second j le_rfl
    obtain ⟨q, same, other⟩ := first j above
    cases reached.symm.trans same
    exact (other.mp (nul.mpr rfl)).symm

theorem enough_rounds (va : UInt64) : 2 ^ 26 - va.toNat / 4096 < rounds := by
  change 2 ^ 26 - va.toNat / 4096 < 2 ^ 26 + 1
  omega

theorem Private.copies (isPrivate : Private ram root) : UserCopies ram root where
  copyout := fun dstva src len => by
    obtain ⟨code, after, done, result⟩ :=
      @copyoutFrom_spec ram root dstva len rounds isPrivate src (enough_rounds dstva)
    refine ⟨code, after, done, ?_⟩
    rw [allowed_iff]
    rcases result with ⟨rfl, written⟩ | ⟨rfl, ⟨i, less, missing⟩, confined⟩
    · refine ⟨.inl rfl, iff_of_true rfl fun i less => ?_, fun _ => written, nofun⟩
      obtain ⟨p, reached, _⟩ := written.bytes i less
      rw [reached]
      nofun
    · exact ⟨.inr rfl, iff_of_false nofun fun all => all i less missing, nofun, fun _ => confined⟩
  copyin := fun dst srcva len => by
    obtain ⟨code, result, done, within, results⟩ :=
      @copyinFrom_spec ram root srcva len rounds isPrivate dst 0 (enough_rounds srcva)
    refine ⟨code, result, done, ?_⟩
    rw [allowed_iff]
    rcases results with ⟨rfl, holds⟩ | ⟨rfl, i, less, missing⟩
    · refine ⟨.inl rfl, iff_of_true rfl fun i less => ?_, fun _ => holds, within⟩
      obtain ⟨p, reached, _⟩ := holds i less
      rw [reached]
      nofun
    · exact ⟨.inr rfl, iff_of_false nofun fun all => all i less missing, nofun, within⟩
  copyinstr := fun dst srcva max => by
    obtain ⟨code, result, done, within, results⟩ :=
      @copyinstrFrom_spec ram root srcva max rounds isPrivate dst 0 (enough_rounds srcva)
    refine ⟨code, result, done, ?_⟩
    rcases results with ⟨rfl, k, less, ends, holds, only⟩ | ⟨rfl, never⟩
    · refine ⟨.inl rfl, iff_of_true rfl ⟨k, less, ends⟩, fun j _ other => ?_, within⟩
      rw [← ends.unique other]
      exact ⟨holds, only⟩
    · exact ⟨.inr rfl, iff_of_false nofun never, nofun, within⟩

theorem user_copies {sz : UInt64} (space : AddressSpace ram root sz) : UserCopies ram root :=
  space.isPrivate.copies

/-! A process of one page. -/

def userPage : Page := ⟨0x80007000, by decide⟩

def layout (ram : Ram) : Except Panic (List Int × Ram) := do
  let (first, ram) ← mappages youngRoot trampoline 4096
    youngRoot.addr (pteR ||| pteX) ram
  let (second, ram) ← mappages youngRoot trapframe 4096
    (⟨0x80006000, by decide⟩ : Page).addr (pteR ||| pteW) ram
  let (third, ram) ← mappages youngRoot 0 4096 userPage.addr (pteR ||| pteW ||| pteU) ram
  return ([first, second, third], ram)

def nursery : Ram :=
  { young with free := young.free ++ [⟨0x80004000, by decide⟩] }

theorem nursery_fresh : Fresh nursery youngRoot where
  nodup := by decide
  apart := fun {page} member node => by
    rw [(node_empty fun _ => rfl).mp node] at member
    revert member
    decide
  nonzero := by
    have all : ∀ page ∈ nursery.free, page.addr ≠ 0 := by decide
    exact fun {page} member => all page member

def smallMap : Vpn → Option Leaf :=
  mapped (mapped (mapped (fun _ => none) trampolinePage.val
    youngRoot (pteR ||| pteX ||| pteV) 1) trapframePage.val
    ⟨0x80006000, by decide⟩ (pteR ||| pteW ||| pteV) 1) 0 userPage
    (pteR ||| pteW ||| pteU ||| pteV) 1

theorem layout_view : ∃ ram, Table ram youngRoot ∧
    view ram youngRoot = smallMap ∧ ¬Node ram youngRoot userPage := by
  have played : (layout nursery).map Prod.fst = .ok [0, 0, 0] := by
    decide +kernel
  have empty : view nursery youngRoot = fun _ => none :=
    funext (view_empty fun _ => rfl)
  have first : trampoline.toNat / 4096 = 2 ^ 26 - 1 := by decide
  have second : trapframe.toNat / 4096 = 2 ^ 26 - 2 := by decide
  have third : (0 : UInt64).toNat / 4096 = 0 := rfl
  obtain ⟨a, one, doneOne, extOne, keptOne, viewOne⟩ := @mappages_one nursery
    youngRoot trampoline (pteR ||| pteX) (.of_empty (fun _ => rfl) (by decide)) nursery_fresh
    youngRoot (by decide) (by decide) (by decide)
    fun n _ => by rw [empty]
  obtain ⟨b, two, doneTwo, extTwo, keptTwo, viewTwo⟩ := @mappages_one one
    youngRoot trapframe (pteR ||| pteW) extOne.table extOne.fresh
    ⟨0x80006000, by decide⟩ (by decide) (by decide) (by decide)
    fun n same => by rw [keptOne n (by omega), empty]
  obtain ⟨c, three, doneThree, extThree, _, viewThree⟩ := @mappages_one two
    youngRoot 0 (pteR ||| pteW ||| pteU) extTwo.table extTwo.fresh userPage
    (by decide) (by decide) (by decide)
    fun n same => by rw [keptTwo n (by omega), keptOne n (by omega), empty]
  simp only [layout, doneOne, doneTwo, doneThree, bind, Except.bind, pure,
    Except.pure, Except.map, Except.ok.injEq, List.cons.injEq, and_true] at played
  obtain ⟨rfl, rfl, rfl⟩ := played
  have ⟨outOne, usedOne⟩ := extOne.not_node
    (fun node => absurd ((node_empty fun _ => rfl).mp node) (by decide))
    (by decide : userPage ∉ nursery.free)
  have ⟨outTwo, usedTwo⟩ := extTwo.not_node outOne usedOne
  refine ⟨three, extThree.table, ?_, (extThree.not_node outTwo usedTwo).1⟩
  rw [viewThree rfl, viewTwo rfl, viewOne rfl, empty]
  rfl

theorem layout_space : ∃ ram, AddressSpace ram youngRoot 4096 := by
  obtain ⟨ram, table, views, apart⟩ := layout_view
  have first : trampolinePage.val = 2 ^ 26 - 1 := by decide
  have second : trapframePage.val = 2 ^ 26 - 2 := by decide
  have one : pages 4096 = 1 := by decide
  have zero : ∀ {n : Vpn}, n.val < 1 →
      smallMap n = some ⟨userPage, pteR ||| pteW ||| pteU ||| pteV⟩ := by
    intro n below
    rw [smallMap, mapped_one, if_pos (by omega)]
  refine ⟨ram, table, ?_, ?_, ?_, ?_, ?_, ?_⟩
  all_goals simp only [views, one]
  · exact fun n below => ⟨_, zero below, by decide⟩
  · intro n above below
    rw [Fin.lt_def] at below
    rw [smallMap, mapped_one, if_neg (by omega), mapped_one,
      if_neg (by omega), mapped_one, if_neg (by omega)]
  · refine ⟨⟨⟨0x80006000, by decide⟩, pteR ||| pteW ||| pteV⟩, ?_, by decide⟩
    rw [smallMap, mapped_one, if_neg (by omega), mapped_one, if_pos rfl]
  · refine ⟨⟨youngRoot, pteR ||| pteX ||| pteV⟩, ?_, by decide⟩
    rw [smallMap, mapped_one, if_neg (by omega), mapped_one,
      if_neg (by omega), mapped_one, if_pos rfl]
  · intro n leaf below found
    cases (zero below).symm.trans found
    exact ⟨apart, by decide⟩
  · intro n m leaf other below otherBelow _ _ _
    exact Fin.ext (by omega)

theorem user_copies_layout : ∃ ram, AddressSpace ram youngRoot 4096 ∧ UserCopies ram youngRoot := by
  obtain ⟨ram, space⟩ := layout_space
  exact ⟨ram, space, user_copies space⟩

end Xv6Lottery.Vm
