import Xv6Lottery.Vm.AddressSpace
import Xv6Lottery.Vm.Bytes

/-! copyout(), copyin() and copyinstr() on the memory of a process. -/

namespace Xv6Lottery.Vm

open Function

def readable (flags : UInt64) : Bool := flags &&& pteU ≠ 0

def writable (flags : UInt64) : Bool :=
  flags &&& pteU ≠ 0 ∧ flags &&& pteW ≠ 0

theorem readable_iff :
    readable flags = true ↔ flags &&& pteU ≠ 0 := decide_eq_true_iff

theorem writable_iff : writable flags = true ↔ flags &&& pteU ≠ 0 ∧ flags &&& pteW ≠ 0 :=
  decide_eq_true_iff

def frameOf (map : Vpn → Option Leaf) (allows : UInt64 → Bool) (k : Nat) : Option Page :=
  if small : k < maxva / pgsize then
    (map ⟨k, small⟩).bind fun leaf =>
      if allows leaf.flags then some leaf.frame else none
  else none

def access (map : Vpn → Option Leaf) (allows : UInt64 → Bool) (x : Nat) : Option UInt64 :=
  (frameOf map allows (x / pgsize)).map fun page => page.byte (x % pgsize)

section

variable {ram after : Ram} {root page : Page} {map : Vpn → Option Leaf}
  {allows : UInt64 → Bool} {va len : UInt64} {x y k i pos : Nat}

theorem frameOf_some (found : frameOf map allows k = some page) :
    ∃ n : Vpn, ∃ leaf, n.val = k ∧ map n = some leaf ∧ allows leaf.flags = true ∧ leaf.frame =
      page := by
  unfold frameOf at found
  split at found
  next small =>
    obtain ⟨leaf, mapsTo, rest⟩ := Option.bind_eq_some_iff.mp found
    split at rest
    next ok => exact ⟨_, leaf, rfl, mapsTo, ok, Option.some.inj rest⟩
    next => cases rest
  next => cases found

theorem frameOf_lt (found : frameOf map allows k = some page) : k < 2 ^ 26 := by
  obtain ⟨n, _, rfl, _⟩ := frameOf_some found
  exact n.isLt

/-- The frames that can be used for an access are those of user pages. -/
def Usable (allows : UInt64 → Bool) : Prop :=
  ∀ {flags}, allows flags = true → flags &&& pteU ≠ 0

theorem readable_usable : Usable readable := readable_iff.mp

theorem writable_usable : Usable writable := fun ok => (writable_iff.mp ok).1

section Private

variable (isPrivate : Private ram root) (usable : Usable allows)

include isPrivate usable

theorem frameOf_inj (first : frameOf (view ram root) allows x = some page)
    (second : frameOf (view ram root) allows y = some page) : x = y := by
  obtain ⟨n, leaf, rfl, found, ok, rfl⟩ := frameOf_some first
  obtain ⟨m, other, rfl, theirs, otherOk, same⟩ := frameOf_some second
  exact congrArg Fin.val (isPrivate.distinct found theirs (usable ok) (usable otherOk) same.symm)

theorem frameOf_apart (found : frameOf (view ram root) allows k = some page) :
    ¬Node ram root page ∧ page.addr ≠ 0 := by
  obtain ⟨n, leaf, rfl, mapsTo, ok, rfl⟩ := frameOf_some found
  exact ⟨isPrivate.apart mapsTo (usable ok), isPrivate.nonzero mapsTo (usable ok)⟩

theorem access_inj (first : access (view ram root) allows x = some p)
    (second : access (view ram root) allows y = some p) : x = y := by
  have size : pgsize = 4096 := rfl
  obtain ⟨page, found, rfl⟩ := Option.map_eq_some_iff.mp first
  obtain ⟨other, theirs, same⟩ := Option.map_eq_some_iff.mp second
  obtain ⟨rfl, offsets⟩ := Page.byte_inj (Nat.mod_lt _ (by decide))
    (Nat.mod_lt _ (by decide)) same
  have numbers := frameOf_inj isPrivate usable found theirs
  rw [size] at numbers
  omega

end Private

theorem access_page (found : frameOf map allows (x / 4096) = some page)
    (inside : x % 4096 + i < 4096) :
    access map allows (x + i) = some (page.byte (x % 4096 + i)) := by
  have number : (x + i) / 4096 = x / 4096 := by omega
  have offset : (x + i) % 4096 = x % 4096 + i := by omega
  rw [access, pgsize, number, offset, found]
  rfl

theorem access_none (missing : frameOf map allows (x / 4096) = none) :
    access map allows x = none := by
  rw [access, pgsize, missing]
  rfl

/-! One round of the copies. -/

theorem down_small (inside : va.toNat / 4096 < 2 ^ 26) : (pgRoundDown va).toNat < maxva := by
  have down := pgRoundDown_toNat va
  rw [pgsize] at down
  rw [maxva]
  omega

theorem down_vpn (inside : va.toNat / 4096 < 2 ^ 26) :
    vpn (pgRoundDown va) (down_small inside) = ⟨va.toNat / 4096, inside⟩ := by
  have down := pgRoundDown_toNat va
  rw [pgsize] at down
  refine Fin.ext ?_
  change (pgRoundDown va).toNat / 4096 = va.toNat / 4096
  omega

theorem frameOf_eq (inside : va.toNat / 4096 < 2 ^ 26) :
    frameOf map allows (va.toNat / 4096) = (map (vpn (pgRoundDown va) (down_small inside))).bind fun
      leaf => if allows leaf.flags then some leaf.frame else none := by
  rw [down_vpn inside]
  exact dif_pos inside

theorem frameOf_outside (outside : ¬va.toNat / 4096 < 2 ^ 26) :
    frameOf map allows (va.toNat / 4096) = none := dif_neg outside

theorem userFrame_down (ram : Ram) (root : Page) (va : UInt64) :
    userFrame ram root (pgRoundDown va) = frameOf (view ram root) readable (va.toNat / 4096) := by
  unfold userFrame
  by_cases inside : va.toNat / 4096 < 2 ^ 26
  · rw [dif_pos (down_small inside), frameOf_eq inside]
    exact congrArg _ (funext fun leaf =>
      if_congr readable_iff.symm rfl rfl)
  · rw [frameOf_outside inside, dif_neg]
    have down := pgRoundDown_toNat va
    rw [pgsize] at down
    rw [maxva]
    omega

theorem walkaddr_down (table : Table ram root) (va : UInt64) :
    walkaddr root (pgRoundDown va) ram = .ok ((frameOf (view ram root) readable
        (va.toNat / 4096)).elim 0 Page.addr, ram) := by
  rw [walkaddr_eq table, userFrame_down]

theorem copyout_missing (table : Table ram root) (rounds : Nat) (src : Nat → UInt8)
    (more : len > 0) (missing : frameOf (view ram root) writable (va.toNat / 4096) = none) :
    copyoutFrom root (rounds + 1) va src len ram = .ok (-1, ram) := by
  unfold copyoutFrom
  rw [if_pos more]
  dsimp only
  by_cases inside : va.toNat / 4096 < 2 ^ 26
  · rw [if_neg (Nat.not_le.mpr (down_small inside))]
    rw [frameOf_eq inside] at missing
    rcases walk_read table (down_small inside) with
      ⟨done, _⟩ | ⟨pte, done, nonzero, points⟩
    · rw [done]
      exact if_pos (.inl rfl)
    · rw [done]
      dsimp only
      refine if_pos (.inr ?_)
      by_contra all
      simp only [not_or] at all
      obtain ⟨valid, user, write⟩ := all
      have flags : writable (pteFlags (ram.word pte)) = true := by
        rw [writable_iff, pteFlags_and _ (by decide),
          pteFlags_and _ (by decide)]
        exact ⟨user, write⟩
      rw [points.view_eq, decode_valid valid] at missing
      simp only [Option.bind_some, flags, if_true, reduceCtorEq] at missing
  · rw [if_pos]
    have down := pgRoundDown_toNat va
    rw [pgsize] at down
    rw [maxva]
    omega

theorem copyout_found (table : Table ram root) (rounds : Nat) (src : Nat → UInt8) (more : len > 0)
    (found : frameOf (view ram root) writable (va.toNat / 4096) = some page) :
    copyoutFrom root (rounds + 1) va src len ram =
      copyoutFrom root rounds (pgRoundDown va + 4096) (fun i => src ((chunk va len).toNat + i))
      (len - chunk va len) (ram.memmove (page.byte (va.toNat % 4096)) src (chunk va len).toNat)
      := by
  have inside := frameOf_lt found
  rw [frameOf_eq inside] at found
  obtain ⟨leaf, mapsTo, rest⟩ := Option.bind_eq_some_iff.mp found
  split at rest
  next ok =>
    have isPage : leaf.frame = page := Option.some.inj rest
    rw [writable_iff] at ok
    rcases walk_read table (down_small inside) with
      ⟨_, unmapped⟩ | ⟨pte, done, nonzero, points⟩
    · cases unmapped.symm.trans mapsTo
    · have ⟨valid, frame, flags⟩ :=
        decode_some (points.view_eq.symm.trans mapsTo)
      rw [← flags, pteFlags_and _ (by decide),
        pteFlags_and _ (by decide)] at ok
      conv_lhs => unfold copyoutFrom
      rw [if_pos more]
      dsimp only
      rw [if_neg (Nat.not_le.mpr (down_small inside)), done]
      dsimp only
      rw [if_neg, frame, isPage, offset_eq]
      simp only [not_or]
      exact ⟨nonzero, valid, ok.1, ok.2⟩
  next => cases rest

/-! The next page. -/

theorem down_next (inside : va.toNat / 4096 < 2 ^ 26) :
    (pgRoundDown va + 4096).toNat = 4096 * (va.toNat / 4096 + 1) := by
  have down := pgRoundDown_toNat va
  have unit : (4096 : UInt64).toNat = 4096 := rfl
  rw [pgsize] at down
  rw [UInt64.toNat_add, unit, down]
  omega

theorem len_sub (va len : UInt64) :
    (len - chunk va len).toNat = len.toNat - (chunk va len).toNat := by
  refine UInt64.toNat_sub_of_le _ _ ?_
  rw [UInt64.le_iff_toNat_le, chunk_toNat]
  exact min_le_right _ _

theorem rest_address (inside : va.toNat / 4096 < 2 ^ 26) (less : i < (len - chunk va len).toNat) :
    (pgRoundDown va + 4096).toNat + i = va.toNat + ((chunk va len).toNat + i) := by
  rw [len_sub, chunk_toNat] at less
  rw [down_next inside, chunk_toNat]
  omega

theorem chunk_room (va len : UInt64) : va.toNat % 4096 + (chunk va len).toNat ≤ 4096 := by
  rw [chunk_toNat]
  omega

theorem chunk_le (va len : UInt64) : (chunk va len).toNat ≤ len.toNat := by
  rw [chunk_toNat]
  exact min_le_right _ _

/-! copyout() -/

/-- The bytes of a range of addresses are those of the source, and no other
byte of memory has changed. -/
structure Written (map : Vpn → Option Leaf) (ram after : Ram) (start : Nat)
    (src : Nat → UInt8) (count : Nat) : Prop where
  bytes : ∀ i < count, ∃ p, access map writable (start + i) = some p ∧ after.byte p = src i
  others : ∀ p, (∀ i < count, access map writable (start + i) ≠ some p) → after.byte p = ram.byte p

/-- No byte outside of the frames that user code can write has changed. -/
def Confined (map : Vpn → Option Leaf) (ram after : Ram) : Prop :=
  ∀ p, (∀ n leaf, map n = some leaf → writable leaf.flags = true →
    pgRoundDown p ≠ leaf.frame.addr) → after.byte p = ram.byte p

section Memmove

variable (isPrivate : Private ram root) (src : Nat → UInt8)
  (found : frameOf (view ram root) writable (va.toNat / 4096) = some page)

include isPrivate found

theorem memmove_outside {i : Fin 512} (isNode : Node ram root node) :
    (ram.memmove (page.byte (va.toNat % 4096)) src (chunk va len).toNat).entries node i =
      ram.entries node i := by
  refine memmove_word ram page src (chunk_room va len) ?_
  rw [node.entry_page]
  intro same
  have equal := Page.eq_of_toNat (congrArg UInt64.toNat same)
  rw [equal] at isNode
  exact (frameOf_apart isPrivate writable_usable found).1 isNode

theorem Written.trans (rest : Written (view ram root) (ram.memmove (page.byte (va.toNat % 4096)) src
      (chunk va len).toNat) after (pgRoundDown va + 4096).toNat
      (fun i => src ((chunk va len).toNat + i)) (len - chunk va len).toNat) :
    Written (view ram root) ram after va.toNat src len.toNat := by
  have inside := frameOf_lt found
  have room := chunk_room va len
  have whole := chunk_le va len
  have left := len_sub va len
  have here : ∀ {i}, i < (chunk va len).toNat → access (view ram root) writable (va.toNat + i) =
        some (page.byte (va.toNat % 4096 + i)) := fun less =>
    access_page found (by omega)
  have later : ∀ {i}, i < (len - chunk va len).toNat →
      access (view ram root) writable ((pgRoundDown va + 4096).toNat + i) =
        access (view ram root) writable (va.toNat + ((chunk va len).toNat + i)) := fun less => by
    rw [rest_address inside less]
  constructor
  · intro i less
    by_cases first : i < (chunk va len).toNat
    · refine ⟨_, here first, ?_⟩
      rw [rest.others _ fun j below same => ?_]
      · exact memmove_written ram page src room first
      · rw [later below] at same
        have equal := access_inj isPrivate writable_usable same (here first)
        omega
    · obtain ⟨j, rfl⟩ := Nat.exists_eq_add_of_le (Nat.not_lt.mp first)
      have below : j < (len - chunk va len).toNat := by omega
      obtain ⟨p, reached, value⟩ := rest.bytes j below
      exact ⟨p, (later below).symm.trans reached, value⟩
  · intro p outside
    rw [rest.others p fun j below same => ?_]
    · refine memmove_kept ram page src room fun i less same => ?_
      refine outside i (by omega) ?_
      rw [here less, same]
    · rw [later below] at same
      exact outside _ (by omega) same

omit isPrivate in
theorem Confined.trans (rest : Confined (view ram root) (ram.memmove (page.byte (va.toNat % 4096))
      src (chunk va len).toNat) after) : Confined (view ram root) ram after := by
  intro p outside
  rw [rest p outside]
  have room := chunk_room va len
  refine memmove_kept ram page src room fun i less same => ?_
  obtain ⟨n, leaf, _, mapsTo, ok, rfl⟩ := frameOf_some found
  refine outside n leaf mapsTo ok ?_
  rw [same, Page.byte_page _ (by omega)]

end Memmove

theorem copyoutFrom_spec (rounds : Nat) (isPrivate : Private ram root) (src : Nat → UInt8)
    (enough : 2 ^ 26 - va.toNat / 4096 < rounds) :
    ∃ code after, copyoutFrom root rounds va src len ram = .ok (code, after) ∧
      (code = 0 ∧ Written (view ram root) ram after va.toNat src len.toNat ∨ code = -1 ∧
        (∃ i < len.toNat, access (view ram root) writable (va.toNat + i) = none) ∧
        Confined (view ram root) ram after) := by
  -- by induction on the rounds; each one is for a page
  induction rounds generalizing va src len ram with
  | zero => exact absurd enough (Nat.not_lt_zero _)
  | succ rounds induction =>
    by_cases more : len > 0
    · have positive : 0 < len.toNat := UInt64.lt_iff_toNat_lt.mp more
      cases found : frameOf (view ram root) writable (va.toNat / 4096) with
      | none =>
        refine ⟨-1, ram, copyout_missing isPrivate.table rounds src more
          found, .inr ⟨rfl, ⟨0, positive, access_none found⟩, ?_⟩⟩
        exact fun _ _ => rfl
      | some page =>
        have inside := frameOf_lt found
        have same : ∀ {node i}, Node ram root node → (ram.memmove (page.byte (va.toNat % 4096)) src
              (chunk va len).toNat).entries node i = ram.entries node i :=
          memmove_outside isPrivate src found
        have next := @down_next va inside
        have views := view_outside same
        obtain ⟨code, after, done, result⟩ :=
          @induction _ (pgRoundDown va + 4096) (len - chunk va len) (isPrivate.outside same)
            (fun i => src ((chunk va len).toNat + i)) (by omega)
        rw [copyout_found isPrivate.table rounds src more found]
        rw [views] at result
        refine ⟨code, after, done, ?_⟩
        rcases result with ⟨zero, written⟩ | ⟨failed, ⟨i, less, missing⟩, confined⟩
        · exact .inl ⟨zero, written.trans isPrivate src found⟩
        · refine .inr ⟨failed, ⟨(chunk va len).toNat + i, ?_, ?_⟩, confined.trans src found⟩
          · have left := len_sub va len
            omega
          · rw [← rest_address inside less]
            exact missing
    · have zero : len.toNat = 0 := by
        rw [gt_iff_lt, UInt64.lt_iff_toNat_lt] at more
        exact Nat.eq_zero_of_not_pos more
      refine ⟨0, ram, ?_, .inl ⟨rfl, ?_, fun _ _ => rfl⟩⟩
      · unfold copyoutFrom
        exact if_neg more
      · rw [zero]
        exact fun i less => absurd less (Nat.not_lt_zero i)

/-! copyin() -/

theorem fill_inside (ram : Ram) (dst : Nat → UInt8) (page : Page) (less : i < n) :
    fill ram dst pos (page.byte off) n (pos + i) = ram.byte (page.byte (off + i)) := by
  unfold fill
  rw [if_pos ⟨Nat.le_add_right .., by omega⟩, Nat.add_sub_cancel_left,
    page.byte_add]

theorem fill_outside (ram : Ram) (dst : Nat → UInt8) (src : UInt64)
    (outside : x < pos ∨ pos + n ≤ x) : fill ram dst pos src n x = dst x :=
  if_neg (by omega)

theorem walkaddr_found (isPrivate : Private ram root)
    (found : frameOf (view ram root) readable (va.toNat / 4096) = some page) :
    walkaddr root (pgRoundDown va) ram = .ok (page.addr, ram) ∧ page.addr ≠ 0 := by
  rw [walkaddr_down isPrivate.table, found]
  exact ⟨rfl, (frameOf_apart isPrivate readable_usable found).2⟩

theorem walkaddr_missing (table : Table ram root)
    (missing : frameOf (view ram root) readable (va.toNat / 4096) = none) :
    walkaddr root (pgRoundDown va) ram = .ok (0, ram) := by
  rw [walkaddr_down table, missing]
  rfl

def Holds (ram : Ram) (root : Page) (start : Nat) (dst : Nat → UInt8) (pos count : Nat) : Prop :=
  ∀ i < count, ∃ p, access (view ram root) readable (start + i) = some p ∧
    dst (pos + i) = ram.byte p

theorem Holds.append (first : Holds ram root start dst pos n)
    (second : Holds ram root next dst (pos + n) count)
    (same : ∀ j < count, next + j = start + (n + j)) :
    Holds ram root start dst pos (n + count) := by
  intro i less
  by_cases below : i < n
  · exact first i below
  · obtain ⟨j, rfl⟩ := Nat.exists_eq_add_of_le (Nat.not_lt.mp below)
    have inside : j < count := by omega
    obtain ⟨p, reached, value⟩ := second j inside
    rw [same j inside] at reached
    rw [Nat.add_assoc] at value
    exact ⟨p, reached, value⟩

def Within (before after : Nat → UInt8) (pos count : Nat) : Prop :=
  ∀ x, x < pos ∨ pos + count ≤ x → after x = before x

theorem copyinFrom_spec (rounds : Nat) (isPrivate : Private ram root) (dst : Nat → UInt8)
    (pos : Nat) (enough : 2 ^ 26 - va.toNat / 4096 < rounds) :
    ∃ code result, copyinFrom root ram rounds dst pos va len = .ok (code, result) ∧
      Within dst result pos len.toNat ∧ (code = 0 ∧ Holds ram root va.toNat result pos len.toNat ∨
        code = -1 ∧ ∃ i < len.toNat, access (view ram root) readable (va.toNat + i) = none) := by
  -- by induction on the rounds; each one is for a page
  induction rounds generalizing va dst pos len with
  | zero => exact absurd enough (Nat.not_lt_zero _)
  | succ rounds induction =>
    by_cases more : len > 0
    · have positive : 0 < len.toNat := UInt64.lt_iff_toNat_lt.mp more
      unfold copyinFrom
      rw [if_pos more]
      dsimp only
      cases found : frameOf (view ram root) readable (va.toNat / 4096) with
      | none =>
        rw [walkaddr_missing isPrivate.table found]
        exact ⟨-1, dst, if_pos rfl, fun _ _ => rfl, .inr ⟨rfl, 0, positive, access_none found⟩⟩
      | some page =>
        have ⟨done, nonzero⟩ := walkaddr_found isPrivate found
        have inside := frameOf_lt found
        have room := chunk_room va len
        have whole := chunk_le va len
        have left := len_sub va len
        have next := @down_next va inside
        rw [done]
        dsimp only
        rw [if_neg nonzero, offset_eq]
        obtain ⟨code, result, finished, within, results⟩ :=
          @induction (pgRoundDown va + 4096) (len - chunk va len)
            (fill ram dst pos (page.byte (va.toNat % 4096))
              (chunk va len).toNat) (pos + (chunk va len).toNat) (by omega)
        refine ⟨code, result, finished, fun x outside => ?_, ?_⟩
        · rw [within x (by omega)]
          exact fill_outside _ _ _ (by omega)
        · rcases results with ⟨zero, holds⟩ | ⟨failed, i, less, missing⟩
          · have first : Holds ram root va.toNat result pos (chunk va len).toNat := fun i less => by
              refine ⟨_, access_page found (by omega), ?_⟩
              rw [within _ (.inl (by omega))]
              exact fill_inside ram dst page less
            have both := first.append holds fun j less =>
              rest_address inside less
            rw [left, Nat.add_sub_cancel' whole] at both
            exact .inl ⟨zero, both⟩
          · refine .inr ⟨failed, (chunk va len).toNat + i, by omega, ?_⟩
            rw [← rest_address inside less]
            exact missing
    · have zero : len.toNat = 0 := by
        rw [gt_iff_lt, UInt64.lt_iff_toNat_lt] at more
        exact Nat.eq_zero_of_not_pos more
      refine ⟨0, dst, ?_, fun _ _ => rfl, .inl ⟨rfl, ?_⟩⟩
      · unfold copyinFrom
        exact if_neg more
      · rw [zero]
        exact fun i less => absurd less (Nat.not_lt_zero i)

/-! copyinstr() -/

theorem copyinstrPage_spec (ram : Ram) (page : Page) (off n : Nat) (dst : Nat → UInt8) (pos : Nat) :
    (∃ k < n, copyinstrPage ram n (page.byte off) dst pos =
        ⟨true, fill ram dst pos (page.byte off) (k + 1), pos + k⟩ ∧ ∀ i ≤ k,
        ram.byte (page.byte (off + i)) = 0 ↔ i = k) ∨
      (copyinstrPage ram n (page.byte off) dst pos =
        ⟨false, fill ram dst pos (page.byte off) n, pos + n⟩ ∧ ∀ i < n,
        ram.byte (page.byte (off + i)) ≠ 0) := by
  induction n generalizing off dst pos with
  | zero =>
    refine .inr ⟨?_, fun i less => absurd less (Nat.not_lt_zero i)⟩
    have same : fill ram dst pos (page.byte off) 0 = dst := by
      funext x
      exact fill_outside _ _ _ (by omega)
    rw [same]
    rfl
  | succ n induction =>
    -- the first byte, and then those of the rest
    have step : ∀ m, fill ram (update dst pos
          (ram.byte (page.byte off))) (pos + 1) (page.byte (off + 1)) m =
        fill ram dst pos (page.byte off) (m + 1) := by
      intro m
      funext x
      rcases Nat.lt_trichotomy x pos with below | rfl | above
      · rw [fill_outside _ _ _ (.inl (by omega)),
          fill_outside _ _ _ (.inl below), update_of_ne below.ne]
      · rw [fill_outside _ _ _ (.inl (by omega)), update_self]
        exact (fill_inside ram dst page (Nat.succ_pos m)).symm
      · obtain ⟨i, rfl⟩ := Nat.exists_eq_add_of_le above
        by_cases less : i < m
        · rw [fill_inside ram _ page less, Nat.succ_eq_add_one,
            Nat.add_right_comm pos 1 i, Nat.add_assoc pos,
            fill_inside ram dst page (Nat.succ_lt_succ less),
            Nat.add_right_comm off 1 i, Nat.add_assoc off]
        · rw [fill_outside _ _ _ (.inr (by omega)),
            fill_outside _ _ _ (.inr (by omega)),
            update_of_ne (by omega)]
    unfold copyinstrPage
    by_cases nul : ram.byte (page.byte off) = 0
    · refine .inl ⟨0, Nat.succ_pos n, ?_, ?_⟩
      · rw [if_pos nul, ← step 0, nul]
        have same : fill ram (update dst pos 0) (pos + 1)
            (page.byte (off + 1)) 0 = update dst pos 0 := by
          funext x
          exact fill_outside _ _ _ (by omega)
        rw [same]
        rfl
      · intro i bound
        rw [Nat.le_zero.mp bound]
        exact iff_of_true nul rfl
    · have following : page.byte off + 1 = page.byte (off + 1) :=
        page.byte_add off 1
      rw [if_neg nul, following]
      have shift : ∀ {i}, off + 1 + i = off + (i + 1) := by omega
      rcases induction (off + 1) (update dst pos (ram.byte (page.byte off))) (pos + 1) with
        ⟨k, less, done, first⟩ | ⟨done, none⟩
      · refine .inl ⟨k + 1, Nat.succ_lt_succ less, ?_, fun i bound => ?_⟩
        · rw [done, step, Nat.add_assoc pos, Nat.add_comm 1 k]
        · cases i with
          | zero => exact iff_of_false nul nofun
          | succ i =>
            have same := first i (Nat.le_of_succ_le_succ bound)
            rw [shift] at same
            rw [same, Nat.add_right_cancel_iff]
      · refine .inr ⟨?_, fun i less => ?_⟩
        · rw [done, step, Nat.add_assoc pos, Nat.add_comm 1 n]
        · cases i with
          | zero => exact nul
          | succ i =>
            have other := none i (Nat.lt_of_succ_lt_succ less)
            rw [shift] at other
            exact other

/-- The string at an address ends after some bytes, all of them in memory that
user code can read. -/
def EndsAt (ram : Ram) (root : Page) (start k : Nat) : Prop :=
  ∀ i ≤ k, ∃ p, access (view ram root) readable (start + i) = some p ∧ (ram.byte p = 0 ↔ i = k)

theorem endsAt_add
    (first : ∀ i < n, ∃ p, access (view ram root) readable (start + i) = some p ∧ ram.byte p ≠ 0)
    (same : ∀ j ≤ k, next + j = start + (n + j)) :
    EndsAt ram root start (n + k) ↔ EndsAt ram root next k := by
  constructor
  · intro ends j bound
    obtain ⟨p, reached, nul⟩ := ends (n + j) (by omega)
    rw [← same j bound] at reached
    exact ⟨p, reached, nul.trans (by omega)⟩
  · intro ends i bound
    by_cases below : i < n
    · obtain ⟨p, reached, nonzero⟩ := first i below
      exact ⟨p, reached, iff_of_false nonzero (by omega)⟩
    · obtain ⟨j, rfl⟩ := Nat.exists_eq_add_of_le (Nat.not_lt.mp below)
      obtain ⟨p, reached, nul⟩ := ends j (by omega)
      rw [same j (by omega)] at reached
      exact ⟨p, reached, nul.trans (by omega)⟩

section Round

variable (isPrivate : Private ram root) (rounds : Nat) (dst : Nat → UInt8) (more : len > 0)

include isPrivate more

theorem copyinstr_missing (missing : frameOf (view ram root) readable (va.toNat / 4096) = none) :
    copyinstrFrom root ram (rounds + 1) dst pos va len = .ok (-1, dst) := by
  unfold copyinstrFrom
  rw [if_pos more]
  dsimp only
  rw [walkaddr_missing isPrivate.table missing]
  exact if_pos rfl

variable {result : Nat → UInt8}
  (found : frameOf (view ram root) readable (va.toNat / 4096) = some page)

include found

theorem copyinstr_stops (stops : copyinstrPage ram (chunk va len).toNat
      (page.byte (va.toNat % 4096)) dst pos = ⟨true, result, x⟩) :
    copyinstrFrom root ram (rounds + 1) dst pos va len = .ok (0, result) := by
  have ⟨done, nonzero⟩ := walkaddr_found isPrivate found
  unfold copyinstrFrom
  rw [if_pos more]
  dsimp only
  rw [done]
  dsimp only
  rw [if_neg nonzero, offset_eq, stops]
  exact if_pos rfl

theorem copyinstr_goes (goes : copyinstrPage ram (chunk va len).toNat (page.byte (va.toNat % 4096))
      dst pos = ⟨false, result, x⟩) :
    copyinstrFrom root ram (rounds + 1) dst pos va len =
      copyinstrFrom root ram rounds result x (pgRoundDown va + 4096) (len - chunk va len) := by
  have ⟨done, nonzero⟩ := walkaddr_found isPrivate found
  conv_lhs => unfold copyinstrFrom
  rw [if_pos more]
  dsimp only
  rw [done]
  dsimp only
  rw [if_neg nonzero, offset_eq, goes]
  exact if_neg nofun

end Round

theorem copyinstrFrom_spec (rounds : Nat) (isPrivate : Private ram root) (dst : Nat → UInt8)
    (pos : Nat) (enough : 2 ^ 26 - va.toNat / 4096 < rounds) :
    ∃ code result, copyinstrFrom root ram rounds dst pos va len = .ok (code, result) ∧
      Within dst result pos len.toNat ∧ (code = 0 ∧
        (∃ k < len.toNat, EndsAt ram root va.toNat k ∧ Holds ram root va.toNat result pos (k + 1) ∧
        Within dst result pos (k + 1)) ∨ code = -1 ∧ ¬∃ k < len.toNat,
        EndsAt ram root va.toNat k) := by
  -- by induction on the rounds; each one is for a page
  induction rounds generalizing va dst pos len with
  | zero => exact absurd enough (Nat.not_lt_zero _)
  | succ rounds induction =>
    by_cases more : len > 0
    · cases found : frameOf (view ram root) readable (va.toNat / 4096) with
      | none =>
        refine ⟨-1, dst, copyinstr_missing isPrivate rounds dst more found,
          fun _ _ => rfl, .inr ⟨rfl, ?_⟩⟩
        rintro ⟨k, _, ends⟩
        obtain ⟨p, reached, _⟩ := ends 0 (Nat.zero_le k)
        cases (access_none found).symm.trans reached
      | some page =>
        have inside := frameOf_lt found
        have room := chunk_room va len
        have whole := chunk_le va len
        have left := len_sub va len
        have next := @down_next va inside
        have here : ∀ {i}, i < (chunk va len).toNat →
            access (view ram root) readable (va.toNat + i) =
              some (page.byte (va.toNat % 4096 + i)) := fun less =>
          access_page found (by omega)
        rcases copyinstrPage_spec ram page (va.toNat % 4096) (chunk va len).toNat dst pos with
          ⟨k, less, stops, first⟩ | ⟨goes, none⟩
        · rw [copyinstr_stops isPrivate rounds dst more found stops]
          refine ⟨0, _, rfl, fun x outside => ?_, .inl ⟨rfl, k,
            by omega, fun i bound => ?_, fun i bound => ?_,
            fun x outside => fill_outside _ _ _ outside⟩⟩
          · exact fill_outside _ _ _ (by omega)
          · exact ⟨_, here (by omega), first i bound⟩
          · exact ⟨_, here (by omega), fill_inside ram dst page bound⟩
        · rw [copyinstr_goes isPrivate rounds dst more found goes]
          obtain ⟨code, result, finished, within, results⟩ :=
            @induction (pgRoundDown va + 4096) (len - chunk va len)
              (fill ram dst pos (page.byte (va.toNat % 4096))
                (chunk va len).toNat) (pos + (chunk va len).toNat) (by omega)
          refine ⟨code, result, finished, fun x outside => ?_, ?_⟩
          · rw [within x (by omega)]
            exact fill_outside _ _ _ (by omega)
          · have nonzeros : ∀ i < (chunk va len).toNat, ∃ p,
                access (view ram root) readable (va.toNat + i) = some p ∧
                  ram.byte p ≠ 0 := fun i less =>
              ⟨_, here less, none i less⟩
            rcases results with ⟨zero, k, less, ends, holds, only⟩ | ⟨failed, never⟩
            · have same : ∀ j < k + 1, (pgRoundDown va + 4096).toNat +
                  j = va.toNat + ((chunk va len).toNat + j) :=
                fun j bound => rest_address inside (by omega)
              have first : Holds ram root va.toNat result pos
                  (chunk va len).toNat := fun i less => by
                refine ⟨_, here less, ?_⟩
                rw [within _ (.inl (by omega))]
                exact fill_inside ram dst page less
              have both := first.append holds same
              rw [← Nat.add_assoc] at both
              refine .inl ⟨zero, (chunk va len).toNat + k, by omega,
                (endsAt_add nonzeros fun j bound =>
                  same j (Nat.lt_succ_of_le bound)).mpr ends,
                both, fun x outside => ?_⟩
              rw [only x (by omega)]
              exact fill_outside _ _ _ (by omega)
            · refine .inr ⟨failed, ?_⟩
              rintro ⟨k, less, ends⟩
              by_cases below : k < (chunk va len).toNat
              · obtain ⟨p, reached, nul⟩ := ends k le_rfl
                cases (here below).symm.trans reached
                exact none k below (nul.mpr rfl)
              · obtain ⟨j, rfl⟩ :=
                  Nat.exists_eq_add_of_le (Nat.not_lt.mp below)
                refine never ⟨j, by omega, ?_⟩
                refine (endsAt_add nonzeros fun i bound => ?_).mp ends
                exact rest_address inside (by omega)
    · refine ⟨-1, dst, ?_, fun _ _ => rfl, .inr ⟨rfl, ?_⟩⟩
      · unfold copyinstrFrom
        exact if_neg more
      rintro ⟨k, less, _⟩
      rw [gt_iff_lt, UInt64.lt_iff_toNat_lt] at more
      exact more (Nat.zero_lt_of_lt less)

end

end Xv6Lottery.Vm
