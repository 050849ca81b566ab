import Xv6Lottery.Disk.Copyin
import Xv6Lottery.Disk.Read

/-! The blocks that a write passes to log_write(), in any state of the
bitmap. -/

namespace Xv6Lottery.Disk

open Concurrent Function

variable {Agent : Type} {sb : Superblock} {self : Agent} {volume : Volume Agent} {ip : Fin ninode}

theorem ballocFrom_logs (rounds b : Nat) :
    Runs self (ballocFrom sb rounds b) volume fun found finish => finish.mem = volume.mem ∧ ∃ c,
      finish.logged ⊆ [found, c] ++ volume.logged := by
  have nothing : ∃ c, volume.logged ⊆ [0, c] ++ volume.logged :=
    ⟨0, List.subset_append_right _ _⟩
  induction rounds generalizing b with
  | zero => exact .pure ⟨rfl, nothing⟩
  | succ rounds induction =>
    rw [ballocFrom]
    split
    next inside =>
      cases found : ballocScan sb b (volume.block (sb.bblock b)) with
      | some bi =>
        refine .bind (Runs.logWrite (by rw [found]) ?_)
        refine .bind (Runs.logWrite rfl ?_)
        exact .pure ⟨rfl, sb.bblock b, List.Subset.refl _⟩
      | none =>
        refine .bind (Runs.bread (by rw [found]) ?_)
        exact induction _
    next outside => exact .pure ⟨rfl, nothing⟩

theorem balloc_logs :
    Runs self (balloc sb) volume fun found finish => finish.mem = volume.mem ∧ ∃ c,
      finish.logged ⊆ [found, c] ++ volume.logged :=
  ballocFrom_logs _ _

def Volume.table (volume : Volume Agent) (ip : Fin ninode) : Nat :=
  (volume.mem.itable ip).copy.addrs (Fin.last ndirect)

/-- Beyond a first list, log_write() has got at most the blocks of two more
lists. The first is for the indirect block and its allocation. -/
structure Within (ip : Fin ninode) (inum : Nat)
    (first fixed more : List Nat) (volume : Volume Agent) : Prop where
  logged : volume.logged ⊆ fixed ++ (more ++ first)
  few : fixed.length ≤ 2
  none : volume.table ip = 0 → fixed = []
  table : volume.table ip ≠ 0 → volume.table ip ∈ fixed
  inum : (volume.mem.itable ip).key.inum = inum

namespace Within

variable {inum : Nat} {first fixed more : List Nat} {finish : Volume Agent}

section

variable (within : Within ip inum first fixed more volume)

include within

theorem grow (fresh : List Nat)
    (mem : finish.mem = volume.mem) (logged : finish.logged ⊆ fresh ++ volume.logged) :
    Within ip inum first fixed (fresh ++ more) finish where
  logged := by
    intro b member
    have known := within.logged
    rcases List.mem_append.mp (logged member) with new | old
    · simp [new]
    · have before := known old
      simp only [List.mem_append] at before ⊢
      tauto
  few := within.few
  none := by
    unfold Volume.table
    rw [mem]
    exact within.none
  table := by
    unfold Volume.table
    rw [mem]
    exact within.table
  inum := by
    rw [mem]
    exact within.inum

theorem logWrite (b : Nat) (data : Block) :
    Within ip inum first fixed (b :: more) (volume.logWrite b data) :=
  within.grow [b] rfl (List.Subset.refl (b :: volume.logged))

theorem again (known : b ∈ fixed ∨ b ∈ more)
    (data : Block) : Within ip inum first fixed more (volume.logWrite b data) where
  logged := by
    intro c member
    rcases List.mem_cons.mp member with rfl | old
    · simp only [List.mem_append]
      tauto
    · exact within.logged old
  few := within.few
  none := within.none
  table := within.table
  inum := within.inum

theorem setCopy (copy : Inode)
    (same : copy.addrs (Fin.last ndirect) = volume.table ip) : Within ip inum first fixed more
      { volume with mem := volume.mem.setCopy ip copy } where
  logged := within.logged
  few := within.few
  none := by
    unfold Volume.table
    simp only [Mem.setCopy_copy, same]
    exact within.none
  table := by
    unfold Volume.table
    simp only [Mem.setCopy_copy, same]
    exact within.table
  inum := by
    simp only [Mem.setCopy_key]
    exact within.inum

theorem setTable
    (before : volume.table ip = 0) (mem : finish.mem = volume.mem)
    (logged : finish.logged ⊆ [b, c] ++ volume.logged)
    (after : copy.addrs (Fin.last ndirect) = b) (positive : b ≠ 0) :
    Within ip inum first [b, c] more { finish with mem := finish.mem.setCopy ip copy } where
  logged := by
    have known := within.logged
    rw [within.none before, List.nil_append] at known
    intro d member
    rcases List.mem_append.mp (logged member) with new | old
    · exact List.mem_append_left _ new
    · exact List.mem_append_right _ (known old)
  few := Nat.le_refl 2
  none := by
    unfold Volume.table
    simp only [Mem.setCopy_copy, after]
    exact fun zero => (positive zero).elim
  table := by
    unfold Volume.table
    simp only [Mem.setCopy_copy, after]
    exact fun _ => .head _
  inum := by
    simp only [Mem.setCopy_key, mem]
    exact within.inum

end

end Within

section Writei

variable {inum : Nat} {first fixed more : List Nat}

section

variable (within : Within ip inum first fixed more volume)

include within

theorem bmapTable_logs :
    Runs self (bmapDirect sb ip (Fin.last ndirect)) volume fun table finish => if table =
      0 then ∃ more', Within ip inum first fixed more' finish ∧ 0 ∈ more' ∧ more'.length ≤
      more.length + 2 else ∃ fixed', Within ip inum first fixed' more finish ∧ table ∈ fixed' := by
  refine .bind (Runs.readIp ?_)
  split
  next none =>
    refine .seq balloc_logs ?_
    rintro addr middle ⟨mem, c, logged⟩
    split
    next zero =>
      refine .pure ?_
      rw [if_pos rfl]
      exact ⟨_, within.grow [addr, c] mem logged, zero ▸ .head _, Nat.le_refl _⟩
    next positive =>
      refine .bind (Runs.writeIp (.pure ?_))
      rw [if_neg positive]
      have after : update (middle.mem.itable ip).copy.addrs
          (Fin.last ndirect) addr (Fin.last ndirect) = addr :=
        update_self ..
      exact ⟨_, within.setTable none mem logged after positive, .head _⟩
  next table =>
    refine .pure ?_
    rw [if_neg table]
    exact ⟨fixed, within, within.table table⟩

theorem bmapIndirect_logs
    (known : table ∈ fixed) (i : Nat) :
    Runs self (bmapIndirect sb i table) volume fun addr finish => ∃ more',
      Within ip inum first fixed more' finish ∧ addr ∈ more' ∧ more'.length ≤ more.length + 2 := by
  refine .bind (Runs.bread rfl ?_)
  split
  next none =>
    refine .seq balloc_logs ?_
    rintro addr middle ⟨mem, c, logged⟩
    have grown := within.grow [addr, c] mem logged
    split
    next zero => exact .pure ⟨_, grown, zero ▸ .head _, Nat.le_refl _⟩
    next positive =>
      refine .bind (Runs.logWrite rfl (.pure ?_))
      exact ⟨_, grown.again (.inl known) _, .head _, Nat.le_refl _⟩
  next mapped =>
    exact .pure ⟨_, within.grow [_] rfl (List.subset_cons_self ..), .head _, by simp⟩

/-- bmap() passes at most two blocks to log_write(), beside the indirect
block. -/
theorem bmap_logs (bn : Fin maxfile) :
    Runs self (bmap sb ip bn) volume fun addr finish => ∃ fixed' more',
      Within ip inum first fixed' more' finish ∧ addr ∈ more' ∧ more'.length ≤ more.length + 2 := by
  unfold bmap
  by_cases small : (bn : Nat) < ndirect
  · rw [dif_pos small]
    refine .bind (Runs.readIp ?_)
    split
    next none =>
      refine .seq balloc_logs ?_
      rintro addr middle ⟨mem, c, logged⟩
      have grown := within.grow [addr, c] mem logged
      split
      next zero =>
        exact .pure ⟨_, _, grown, zero ▸ .head _, Nat.le_refl _⟩
      next positive =>
        refine .bind (Runs.writeIp ?_)
        refine .pure ⟨_, _, grown.setCopy _ ?_, .head _, Nat.le_refl _⟩
        refine update_of_ne (fun same => ?_) ..
        have values := congrArg Fin.val same
        simp only [Fin.val_last] at values
        omega
    next mapped =>
      exact .pure ⟨_, _, within.grow [_] rfl (List.subset_cons_self ..), .head _, by simp⟩
  · have bound := sub_ndirect_lt bn
    rw [dif_neg small, if_pos bound]
    refine .seq (bmapTable_logs within) ?_
    intro table middle logs
    split
    next zero =>
      rw [if_pos zero] at logs
      exact .pure ⟨fixed, logs⟩
    next positive =>
      rw [if_neg positive] at logs
      obtain ⟨fixed', within, known⟩ := logs
      refine (bmapIndirect_logs within known _).mono ?_
      exact fun addr finish logs => ⟨fixed', logs⟩

end

variable {src : Source}

theorem copyin_logs (within : Within ip inum first fixed more volume) (known : b ∈ more)
    (offset start count : Nat) :
    Runs self (.perform (.copyin b offset src start count)) volume fun _ finish => Within ip inum
      first fixed more finish := by
  refine Runs.copyin (fun _ => within.again (.inr known) _) fun _ => ?_
  exact {
    logged := within.logged
    few := within.few
    none := within.none
    table := within.table
    inum := within.inum }

theorem writeiLoop_logs (within : Within ip inum first fixed more volume)
    (span : left = 0 ∨ off % bsize + left ≤ bsize * blocks)
    (inside : off + left ≤ maxfile * bsize) :
    Runs self (writeiLoop sb ip src rounds off left tot) volume fun _ finish => ∃ fixed' more',
      Within ip inum first fixed' more' finish ∧ more'.length ≤ more.length + 2 * blocks := by
  induction rounds generalizing volume fixed more off left tot blocks with
  | zero => exact .pure ⟨_, _, within, Nat.le_add_right ..⟩
  | succ rounds induction =>
    rw [writeiLoop]
    split
    next none => exact .pure ⟨_, _, within, Nat.le_add_right ..⟩
    next some_ =>
      have range : off / bsize < maxfile := by
        simp only [bsize, maxfile] at inside ⊢
        omega
      obtain ⟨blocks, rfl⟩ : ∃ fewer, blocks = fewer + 1 := by
        refine ⟨blocks - 1, ?_⟩
        simp only [bsize] at span
        omega
      refine .seq (bmap_logs within ⟨off / bsize, range⟩) ?_
      rintro addr middle ⟨fixed', more', within, known, few⟩
      split
      next zero => exact .pure ⟨_, _, within, by omega⟩
      next positive =>
        refine .seq (copyin_logs within known _ _ _) ?_
        intro copied finish within
        split
        next =>
          generalize chunk : min left (bsize - off % bsize) = m
          have rest : left - m = 0 ∨ (off + m) % bsize + (left - m) ≤ bsize * blocks := by
            simp only [bsize] at span chunk ⊢
            omega
          refine (induction within rest (by omega)).mono ?_
          rintro result last ⟨fixed', more'', within, fewer⟩
          exact ⟨fixed', more'', within, by omega⟩
        next => exact .pure ⟨_, _, within, by omega⟩

theorem Within.card_le (within : Within ip inum [] fixed more volume) :
    volume.logged.toFinset.card ≤ more.length + 2 := by
  have few := within.few
  calc volume.logged.toFinset.card ≤ (fixed ++ (more ++ [])).toFinset.card := by
        refine Finset.card_le_card fun b member => ?_
        rw [List.mem_toFinset] at member ⊢
        exact within.logged member
    _ ≤ (fixed ++ (more ++ [])).length := List.toFinset_card_le _
    _ ≤ more.length + 2 := by
        simp only [List.append_nil, List.length_append]
        omega

theorem writei_logs (began : volume.logged = []) (loop : off ≤ (volume.mem.itable ip).copy.size →
      off + n ≤ maxfile * bsize → Runs self (writeiLoop sb ip src n off n 0) volume fun _ finish =>
      ∃ fixed more, Within ip (volume.mem.itable ip).key.inum [] fixed more finish ∧ more.length ≤
      bound) :
    Runs self (writei sb ip src off n) volume fun _ finish => finish.logged.toFinset.card ≤
      bound + 3 := by
  have nothing : volume.logged.toFinset.card ≤ bound + 3 := by
    rw [began]
    exact Nat.zero_le _
  refine .bind (Runs.readIp ?_)
  split
  next outside => exact .pure nothing
  next inside =>
    split
    next large => exact .pure nothing
    next small =>
      refine .seq (loop (by omega) (by omega)) ?_
      rintro ⟨last, tot⟩ middle ⟨fixed, more, within, few⟩
      refine .bind (Runs.writeIp ?_)
      have sized := within.setCopy { (middle.mem.itable ip).copy with
        size := if (middle.mem.itable ip).copy.size < last then last
          else (middle.mem.itable ip).copy.size } rfl
      refine .bind (.bind (Runs.readIp (Runs.logWrite rfl (.pure ?_))))
      rw [sized.inum]
      refine (sized.logWrite _ _).card_le.trans ?_
      simp only [List.length_cons]
      omega

theorem within_start (ip : Fin ninode) (began : volume.logged = []) :
    ∃ fixed, Within ip (volume.mem.itable ip).key.inum [] fixed [] volume := by
  have logged : ∀ fixed, volume.logged ⊆ fixed ++ ([] ++ []) := by
    intro fixed
    rw [began]
    exact List.nil_subset _
  by_cases table : volume.table ip = 0
  · exact ⟨[], logged _, by decide, fun _ => rfl,
      fun positive => (positive table).elim, rfl⟩
  · exact ⟨[volume.table ip], logged _, by simp,
      fun zero => (table zero).elim, fun _ => .head _, rfl⟩

theorem writei_logs_le (began : volume.logged = []) (off n : Nat) :
    Runs self (writei sb ip src off n) volume fun _ finish => finish.logged.toFinset.card ≤
      2 * (n / bsize) + 7 := by
  obtain ⟨fixed, within⟩ := within_start ip began
  have bound : 2 * (n / bsize) + 7 = 2 * (n / bsize + 2) + 3 := by omega
  rw [bound]
  refine writei_logs began fun _ inside => ?_
  have span : n = 0 ∨ off % bsize + n ≤ bsize * (n / bsize + 2) := by
    simp only [bsize]
    omega
  refine (writeiLoop_logs within span inside).mono ?_
  rintro result finish ⟨fixed, more, within, few⟩
  exact ⟨fixed, more, within, by simpa using few⟩

theorem writeiLoop_logs_mapped (within : Within ip inum first fixed [] volume)
    (range : off / bsize < maxfile)
    (mapped : slots volume.block (volume.mem.itable ip).copy (dataSlot ⟨off / bsize, range⟩) ≠ 0)
    (rest : off % bsize ≠ 0) (span : n ≤ bsize * blocks) (inside : off + n ≤ maxfile * bsize) :
    Runs self (writeiLoop sb ip src n off n 0) volume fun _ finish => ∃ fixed more,
      Within ip inum first fixed more finish ∧ more.length ≤ 1 + 2 * blocks := by
  cases n with
  | zero => exact .pure ⟨_, _, within, Nat.zero_le _⟩
  | succ n =>
    rw [writeiLoop, if_neg (Nat.succ_ne_zero n)]
    refine .bind (bmap_mapped ⟨off / bsize, range⟩ mapped ?_)
    rw [if_neg mapped]
    have grown := within.grow [slots volume.block
      (volume.mem.itable ip).copy (dataSlot ⟨off / bsize, range⟩)] rfl (List.subset_cons_self ..)
    refine .seq (copyin_logs grown (.head _) _ _ _) ?_
    intro copied finish within
    split
    next =>
      generalize chunk : min (n + 1) (bsize - off % bsize) = m
      have left : n + 1 - m = 0 ∨ (off + m) % bsize + (n + 1 - m) ≤ bsize * blocks := by
        simp only [bsize] at rest span chunk ⊢
        omega
      exact writeiLoop_logs within left (by omega)
    next => exact .pure ⟨_, _, within, Nat.le_add_right ..⟩

/-- The first block of a write in the middle of a block is there, so that a
chunk of filewrite() is within the reservation of its transaction. -/
theorem writei_within_reservation (noHoles : NoHoles (volume.mem.itable ip).copy.size
      (slots volume.block (volume.mem.itable ip).copy)) (began : volume.logged = []) {off n : Nat}
    (chunk : n ≤ writeMax) :
    Runs self (writei sb ip src off n) volume fun _ finish => finish.logged.toFinset.card ≤
      maxOpBlocks := by
  obtain ⟨fixed, within⟩ := within_start ip began
  have budget : maxOpBlocks = 7 + 3 := rfl
  rw [budget]
  change n ≤ 1024 * 3 at chunk
  refine writei_logs began fun reached inside => ?_
  by_cases aligned : off % bsize = 0
  · have span : n = 0 ∨ off % bsize + n ≤ bsize * 3 := by
      simp only [bsize] at aligned ⊢
      omega
    refine (writeiLoop_logs within span inside).mono ?_
    rintro result finish ⟨fixed, more, within, few⟩
    exact ⟨fixed, more, within, few.trans (by decide)⟩
  · have below : off / bsize * bsize < (volume.mem.itable ip).copy.size := by
      simp only [bsize] at aligned ⊢
      omega
    have range : off / bsize < maxfile := by
      have small := noHoles.small
      simp only [bsize, maxfile] at below small ⊢
      omega
    exact writeiLoop_logs_mapped within range
      (noHoles.filled ⟨off / bsize, range⟩ below) aligned chunk inside

/-- A chunk from the middle of the first block on, on a full disk. -/
theorem openKernel_chunk_within_reservation :
    Runs 0 (writei mkfsSuper 0 (fun _ => some 7) 1 writeMax) openKernel.volume fun _ finish =>
      finish.logged.toFinset.card ≤ maxOpBlocks := by
  refine writei_within_reservation ⟨by decide, fun bn bound => ?_⟩ rfl
    (Nat.le_refl _)
  have first : bn = ⟨0, by decide⟩ := by
    apply Fin.ext
    change (bn : Nat) * 1024 < 1 at bound
    change (bn : Nat) = 0
    omega
  rw [first]
  decide

end Writei

end Xv6Lottery.Disk
