import Xv6Lottery.Virtio.Driver

/-! What the functions of virtio_disk.c do to the descriptors. -/

namespace Xv6Lottery.Virtio

open Function

variable {Buf : Type}

theorem Chain.head_mem (chain : Chain) : chain.head ∈ chain.toList :=
  List.mem_cons_self

namespace Disk

variable {disk between after : Disk Buf} {i : Fin num} {taken : List (Fin num)}

/-! alloc_desc() and free_desc(). -/

theorem allocDesc_some (found : disk.allocDesc = some (i, after)) : disk.free i = true ∧
      after = { disk with free := update disk.free i false } := by
  obtain ⟨place, free, same⟩ := Option.map_eq_some_iff.mp found
  cases same
  exact ⟨List.find?_some free, rfl⟩

def freed (disk : Disk Buf) (i : Fin num) : Disk Buf :=
  { disk with
    desc := update disk.desc i ⟨.null, 0, 0, 0⟩
    free := update disk.free i true }

theorem freed_desc (apart : j ≠ i) :
    (disk.freed i).desc j = disk.desc j := update_of_ne apart ..

theorem freed_free (apart : j ≠ i) :
    (disk.freed i).free j = disk.free j := update_of_ne apart ..

theorem freed_self : (disk.freed i).free i = true := update_self ..

theorem freeDesc_ok (used : disk.free i = false) : disk.freeDesc i = .ok (disk.freed i) := by
  unfold freeDesc
  rw [dif_pos i.isLt]
  simp only [Fin.eta, used, Bool.false_eq_true, if_false]
  rfl

theorem freeChain_more (used : disk.free i = false) (more : (disk.desc i).flags &&& descNext ≠ 0)
    (rounds : Nat) :
    disk.freeChain (rounds + 1) i = (disk.freed i).freeChain rounds (disk.desc i).next.toNat := by
  rw [freeChain, dif_pos i.isLt]
  simp only [Fin.eta, freeDesc_ok used, more, if_false]

theorem freeChain_last (used : disk.free i = false) (last : (disk.desc i).flags &&& descNext = 0)
    (rounds : Nat) : disk.freeChain (rounds + 1) i = .ok (disk.freed i) := by
  rw [freeChain, dif_pos i.isLt]
  simp only [Fin.eta, freeDesc_ok used, last, if_true]

def unchained (disk : Disk Buf) (chain : Chain) : Disk Buf :=
  ((disk.freed chain.head).freed chain.data).freed chain.status

section Unchained

variable {chain : Chain}

theorem unchained_desc (outside : i ∉ chain.toList) :
    (disk.unchained chain).desc i = disk.desc i := by
  simp only [Chain.toList, List.mem_cons, List.not_mem_nil, or_false, not_or] at outside
  obtain ⟨head, data, status⟩ := outside
  rw [unchained, freed_desc status, freed_desc data, freed_desc head]

theorem unchained_free (outside : i ∉ chain.toList) :
    (disk.unchained chain).free i = disk.free i := by
  simp only [Chain.toList, List.mem_cons, List.not_mem_nil, or_false, not_or] at outside
  obtain ⟨head, data, status⟩ := outside
  rw [unchained, freed_free status, freed_free data, freed_free head]

theorem freed_mono (free : disk.free j = true) : (disk.freed i).free j = true := by
  by_cases same : j = i
  · rw [same, freed_self]
  · rw [freed_free same, free]

theorem unchained_mem (member : i ∈ chain.toList) : (disk.unchained chain).free i = true := by
  simp only [Chain.toList, List.mem_cons, List.not_mem_nil, or_false] at member
  rcases member with rfl | rfl | rfl
  · exact freed_mono (freed_mono freed_self)
  · exact freed_mono freed_self
  · exact freed_self

end Unchained

/-- The disk after some free descriptors have been taken: the descriptors in
use, and all that is not a descriptor, stay. -/
structure Took (disk : Disk Buf) (taken : List (Fin num)) (after : Disk Buf) : Prop where
  nodup : taken.Nodup
  was_free : ∀ {i}, i ∈ taken → disk.free i = true
  gone : ∀ {i}, i ∈ taken → after.free i = false
  others : ∀ {i}, i ∉ taken → after.free i = disk.free i
  desc : ∀ {i}, disk.free i = false → after.desc i = disk.desc i
  avail : after.avail = disk.avail
  used : after.used = disk.used
  usedIdx : after.usedIdx = disk.usedIdx
  info : after.info = disk.info
  ops : after.ops = disk.ops

namespace Took

theorem nil (disk : Disk Buf) : Took disk [] disk where
  nodup := .nil
  was_free := nofun
  gone := nofun
  others := fun _ => rfl
  desc := fun _ => rfl
  avail := rfl
  used := rfl
  usedIdx := rfl
  info := rfl
  ops := rfl

theorem alloc (took : Took disk taken between) (found : between.allocDesc = some (i, after)) :
    Took disk (taken ++ [i]) after := by
  obtain ⟨free, rfl⟩ := allocDesc_some found
  have fresh : i ∉ taken := by
    intro member
    cases free.symm.trans (took.gone member)
  exact {
    nodup := List.nodup_append.mpr ⟨took.nodup, List.nodup_singleton i, by
      rintro j member k last rfl
      rw [List.mem_singleton.mp last] at member
      exact fresh member⟩
    was_free := fun {j} member => by
      rcases List.mem_append.mp member with old | new
      · exact took.was_free old
      · rw [List.mem_singleton.mp new, ← took.others fresh]
        exact free
    gone := fun {j} member => by
      change update between.free i false j = false
      by_cases same : j = i
      · rw [same, update_self]
      · rw [update_of_ne same]
        rcases List.mem_append.mp member with old | new
        · exact took.gone old
        · exact (same (List.mem_singleton.mp new)).elim
    others := fun {j} missing => by
      have apart : j ≠ i := by
        rintro rfl
        exact missing (List.mem_append_right _ List.mem_cons_self)
      change update between.free i false j = _
      rw [update_of_ne apart]
      exact took.others fun member =>
        missing (List.mem_append_left _ member)
    desc := took.desc
    avail := took.avail
    used := took.used
    usedIdx := took.usedIdx
    info := took.info
    ops := took.ops }

theorem free (took : Took disk (i :: taken) between) :
    ∃ after, between.freeDesc i = .ok after ∧ Took disk taken after := by
  have ⟨fresh, nodup⟩ := List.nodup_cons.mp took.nodup
  have was := took.was_free List.mem_cons_self
  refine ⟨_, freeDesc_ok (took.gone List.mem_cons_self), ?_⟩
  exact {
    nodup := nodup
    was_free := fun member => took.was_free (List.mem_cons_of_mem _ member)
    gone := fun {j} member => by
      have apart : j ≠ i := by
        rintro rfl
        exact fresh member
      rw [freed_free apart]
      exact took.gone (List.mem_cons_of_mem _ member)
    others := fun {j} missing => by
      by_cases same : j = i
      · rw [same, freed_self, was]
      · rw [freed_free same]
        exact took.others fun member =>
          missing ((List.mem_cons.mp member).resolve_left same)
    desc := fun {j} inUse => by
      have apart : j ≠ i := by
        rintro rfl
        cases was.symm.trans inUse
      rw [freed_desc apart]
      exact took.desc inUse
    avail := took.avail
    used := took.used
    usedIdx := took.usedIdx
    info := took.info
    ops := took.ops }

end Took

theorem alloc3Desc_spec (disk : Disk Buf) :
    (∃ after, disk.alloc3Desc = .ok (none, after) ∧ Took disk [] after) ∨ ∃ chain after,
      disk.alloc3Desc = .ok (some chain, after) ∧ Took disk chain.toList after := by
  unfold alloc3Desc
  cases first : disk.allocDesc with
  | none => exact .inl ⟨disk, rfl, .nil disk⟩
  | some found =>
    obtain ⟨head, one⟩ := found
    have tookOne := (Took.nil disk).alloc first
    simp only
    cases second : one.allocDesc with
    | none =>
      obtain ⟨freed, done, took⟩ := tookOne.free
      refine .inl ⟨freed, ?_, took⟩
      simp only [done]
      rfl
    | some found =>
      obtain ⟨data, two⟩ := found
      have tookTwo := tookOne.alloc second
      simp only
      cases third : two.allocDesc with
      | none =>
        obtain ⟨once, doneOnce, tookOnce⟩ := tookTwo.free
        obtain ⟨twice, doneTwice, tookTwice⟩ := tookOnce.free
        refine .inl ⟨twice, ?_, tookTwice⟩
        simp only [doneOnce]
        change (once.freeDesc data).bind _ = _
        rw [doneTwice]
        rfl
      | some found =>
        obtain ⟨status, three⟩ := found
        exact .inr ⟨⟨head, data, status⟩, three, rfl, tookTwo.alloc third⟩

/-! The chain of a request. -/

structure Linked (disk : Disk Buf) (req : Request Buf) (chain : Chain) : Prop where
  head : disk.desc chain.head = ⟨.op chain.head, 16, descNext, chain.data.val.toUInt16⟩
  data : disk.desc chain.data =
    ⟨.data req.b, bsize, (if req.write then 0 else descWrite) ||| descNext,
      chain.status.val.toUInt16⟩
  status : disk.desc chain.status = ⟨.status chain.head, 1, descWrite, 0⟩

/-- A request as virtio_disk_rw() formats it. -/
structure Formatted (blockno : Buf → UInt32) (disk : Disk Buf)
    (req : Request Buf) (chain : Chain) : Prop extends Linked disk req chain where
  op : disk.ops chain.head = blkReq blockno req
  info : (disk.info chain.head).b = some req.b

variable {blockno : Buf → UInt32} {req : Request Buf} {chain : Chain}

namespace Formatted

theorem frame (formatted : Formatted blockno disk req chain)
    (desc : ∀ {i}, i ∈ chain.toList → after.desc i = disk.desc i)
    (ops : after.ops chain.head = disk.ops chain.head)
    (info : (after.info chain.head).b = (disk.info chain.head).b) :
    Formatted blockno after req chain where
  op := ops.trans formatted.op
  head := (desc (by simp [Chain.toList])).trans formatted.head
  data := (desc (by simp [Chain.toList])).trans formatted.data
  status := (desc (by simp [Chain.toList])).trans formatted.status
  info := info.trans formatted.info

end Formatted

theorem index_toNat (i : Fin num) : i.val.toUInt16.toNat = i.val := by
  have small : i.val < 8 := i.isLt
  change i.val % 2 ^ 16 = i.val
  omega

theorem format_formatted (nodup : chain.toList.Nodup) :
    Formatted blockno (disk.format blockno req chain) req chain := by
  simp only [Chain.toList, List.nodup_cons, List.mem_cons, List.not_mem_nil,
    or_false, not_or] at nodup
  obtain ⟨⟨headData, headStatus⟩, dataStatus, _⟩ := nodup
  exact {
    op := update_self ..
    head := by
      dsimp only [format]
      rw [update_of_ne headStatus, update_of_ne headData, update_self]
    data := by
      dsimp only [format]
      rw [update_of_ne dataStatus, update_self]
    status := update_self ..
    info := by
      dsimp only [format]
      rw [update_self] }

theorem format_desc (disk : Disk Buf) (outside : i ∉ chain.toList) :
    (disk.format blockno req chain).desc i = disk.desc i := by
  simp only [Chain.toList, List.mem_cons, List.not_mem_nil, or_false, not_or] at outside
  obtain ⟨head, data, status⟩ := outside
  dsimp only [format]
  rw [update_of_ne status, update_of_ne data, update_of_ne head]

namespace Linked

variable (linked : Linked disk req chain)

include linked

theorem follow_eq :
    disk.follow chain.head = some (disk.desc chain.head, disk.desc chain.data,
        disk.desc chain.status) := by
  have second : (disk.desc chain.head).next.toNat = chain.data := by
    rw [linked.head]
    exact index_toNat chain.data
  have third : (disk.desc chain.data).next.toNat = chain.status := by
    rw [linked.data]
    exact index_toNat chain.status
  unfold follow
  simp only [Fin.is_lt, dite_true, Fin.eta, second, third]

theorem freeChain_eq (nodup : chain.toList.Nodup)
    (used : ∀ {i}, i ∈ chain.toList → disk.free i = false) :
    disk.freeChain (num + 1) chain.head = .ok (disk.unchained chain) := by
  have usedHead : disk.free chain.head = false := used (by simp [Chain.toList])
  have usedData : disk.free chain.data = false := used (by simp [Chain.toList])
  have usedStatus : disk.free chain.status = false :=
    used (by simp [Chain.toList])
  simp only [Chain.toList, List.nodup_cons, List.mem_cons, List.not_mem_nil,
    or_false, not_or] at nodup
  obtain ⟨⟨headData, headStatus⟩, dataStatus, _⟩ := nodup
  have dataDesc : (disk.freed chain.head).desc chain.data = ⟨.data req.b, bsize,
        (if req.write then 0 else descWrite) ||| descNext, chain.status.val.toUInt16⟩ := by
    rw [freed_desc (Ne.symm headData), linked.data]
  have statusDesc : ((disk.freed chain.head).freed chain.data).desc
      chain.status = ⟨.status chain.head, 1, descWrite, 0⟩ := by
    rw [freed_desc (Ne.symm dataStatus), freed_desc (Ne.symm headStatus), linked.status]
  change disk.freeChain (6 + 1 + 1 + 1) chain.head = _
  rw [freeChain_more usedHead, linked.head, index_toNat, freeChain_more,
    dataDesc, index_toNat, freeChain_last, unchained]
  · rw [freed_free (Ne.symm dataStatus), freed_free (Ne.symm headStatus)]
    exact usedStatus
  · rw [statusDesc]
    change descWrite &&& descNext = 0
    decide
  · rw [freed_free (Ne.symm headData)]
    exact usedData
  · rw [dataDesc]
    change ((if req.write then 0 else descWrite) ||| descNext) &&& descNext ≠ 0
    cases req.write <;> decide
  · rw [linked.head]
    change descNext &&& descNext ≠ 0
    decide

end Linked

namespace Formatted

variable (formatted : Formatted blockno disk req chain)

include formatted

theorem request_eq : disk.request chain.head = some ⟨blkReq blockno req, req.b, !req.write⟩ := by
  unfold request
  rw [formatted.follow_eq, formatted.head, formatted.data, formatted.status]
  simp only [formatted.op]
  cases req.write <;> rfl

theorem complete_info : (disk.complete chain.head.val.toUInt16).info = update disk.info chain.head
        { disk.info chain.head with status := 0 } := by
  unfold complete
  rw [index_toNat, formatted.follow_eq, formatted.head, formatted.data, formatted.status]

end Formatted

end Disk

end Xv6Lottery.Virtio
