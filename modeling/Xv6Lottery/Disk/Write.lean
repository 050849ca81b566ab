import Xv6Lottery.Disk.Allocate

/-! writei() of an inode that is held. -/

namespace Xv6Lottery.Disk

open Concurrent Function

theorem dataSlot_ne_indirectBlock (bn : Fin maxfile) : dataSlot bn ≠ indirectBlock := by
  intro same
  have values := congrArg Fin.val same
  unfold dataSlot indirectBlock at values
  split at values
  next small =>
    simp only [direct, Fin.val_castAdd, Fin.val_last] at values
    omega
  next =>
    simp only [direct, indirect, Fin.val_castAdd, Fin.val_natAdd, Fin.val_last] at values
    omega

theorem dataSlot_inj (same : dataSlot bn = dataSlot bn') : bn = bn' := by
  have values := congrArg Fin.val same
  unfold dataSlot at values
  apply Fin.ext
  split at values <;> split at values <;>
    simp only [direct, indirect, Fin.val_castAdd, Fin.val_natAdd] at values <;> omega

/-! The bytes of a source. -/

namespace Source

variable (src : Source)

def Readable (n : Nat) : Prop := ∀ position, position < n → (src position).isSome = true

theorem copied_length (readable : src.Readable n) (inside : start + count ≤ n) :
    (src.copied start count).length = count := by
  induction count generalizing start with
  | zero => rfl
  | succ count induction =>
    have here := readable start (by omega)
    rw [copied]
    split
    next none =>
      rw [none] at here
      cases here
    next => rw [List.length_cons, induction (by omega)]

theorem copied_get (inside : position < (src.copied start count).length) :
    (src.copied start count)[position]? = src (start + position) := by
  induction count generalizing start position with
  | zero => cases inside
  | succ count induction =>
    rw [copied] at inside ⊢
    split
    next none =>
      simp only [none, List.length_nil] at inside
      omega
    next byte here =>
      simp only [here, List.length_cons] at inside
      cases position with
      | zero => exact here.symm
      | succ position =>
        rw [List.getElem?_cons_succ, induction (by omega)]
        congr 1
        omega

end Source

/-! The file up to where the loop is. -/

/-- The bytes of a file whose `size` was read at the start, when the loop of
writei() has gone from one offset to another. -/
structure Written (size off : Nat) (old : Nat → UInt8) (src : Source)
    (block : Nat → Block) (addr : AddrSlot → Nat) (last : Nat) : Prop where
  bytes : ∀ position, position < max size last → some (fileByte block addr position) =
      if off ≤ position ∧ position < last then src (position - off)
      else some (old position)

def Filled (addr : AddrSlot → Nat) (size : Nat) : Prop :=
  ∀ bn : Fin maxfile, bn * bsize < size → addr (dataSlot bn) ≠ 0

theorem Filled.advance (filled : Filled addr (max size off)) (range : off / bsize < maxfile)
    (here : addr (dataSlot ⟨off / bsize, range⟩) ≠ 0) (inside : off % bsize + m ≤ bsize) :
    Filled addr (max size (off + m)) := by
  intro bn bound
  by_cases before : bn * bsize < max size off
  · exact filled bn before
  · have same : bn = ⟨off / bsize, range⟩ := by
      apply Fin.ext
      simp only [bsize] at inside bound before ⊢
      omega
    rw [same]
    exact here

theorem fileByte_congr (same : ∀ small : position / bsize < maxfile,
      block' (addr' (dataSlot ⟨position / bsize, small⟩)) =
      block (addr (dataSlot ⟨position / bsize, small⟩))) :
    fileByte block' addr' position = fileByte block addr position := by
  unfold fileByte
  split
  next small => rw [same small]
  · rfl

namespace Written

variable {size off last : Nat} {old : Nat → UInt8} {src : Source}
  {block : Nat → Block} {addr : AddrSlot → Nat}

theorem start (size off : Nat) (src : Source) (block : Nat → Block) (addr : AddrSlot → Nat) :
    Written size off (fileByte block addr) src block addr off := by
  refine ⟨fun position _ => ?_⟩
  rw [if_neg (by omega)]

theorem congr (written : Written size off old src block addr last)
    (filled : Filled addr (max size last)) (same : ∀ bn, addr (dataSlot bn) ≠ 0 →
      block' (addr' (dataSlot bn)) = block (addr (dataSlot bn))) :
    Written size off old src block' addr' last := by
  refine ⟨fun position bound => ?_⟩
  rw [fileByte_congr fun small => same _ (filled _ ?_)]
  · exact written.bytes position bound
  · simp only [bsize]
    omega

theorem step (written : Written size off old src block addr last) (started : off ≤ last)
    (range : last / bsize < maxfile) (distinct : ∀ bn, addr (dataSlot bn) =
      addr (dataSlot ⟨last / bsize, range⟩) → bn = ⟨last / bsize, range⟩) {bytes : List UInt8}
    (inside : last % bsize + bytes.length ≤ bsize) (copied : ∀ position, position < bytes.length →
      bytes[position]? = src (last - off + position)) :
    Written size off old src (update block (addr (dataSlot ⟨last / bsize, range⟩))
        ((block (addr (dataSlot ⟨last / bsize, range⟩))).setBytes (last % bsize) bytes)) addr
      (last + bytes.length) := by
  refine ⟨fun position bound => ?_⟩
  by_cases new : last ≤ position ∧ position < last + bytes.length
  · obtain ⟨index, rfl⟩ := Nat.exists_eq_add_of_le new.1
    have small : index < bytes.length := by omega
    have quotient : (last + index) / bsize = last / bsize := by
      simp only [bsize] at inside ⊢
      omega
    have rest : (last + index) % bsize = last % bsize + index := by
      simp only [bsize] at inside ⊢
      omega
    obtain ⟨byte, found⟩ : ∃ byte, bytes[index]? = some byte :=
      ⟨_, List.getElem?_eq_getElem small⟩
    rw [if_pos ⟨by omega, new.2⟩]
    unfold fileByte
    simp only [quotient, dif_pos range, rest, update_self]
    rw [Block.byte_setBytes _ inside found, ← found, copied index small]
    congr 1
    omega
  · have before := written.bytes position (by omega)
    have same : (off ≤ position ∧ position < last + bytes.length) ↔
        off ≤ position ∧ position < last := by omega
    simp only [same]
    rw [← before]
    unfold fileByte
    split
    next small =>
      by_cases here : position / bsize = last / bsize
      · simp only [here, update_self]
        rw [Block.byte_setBytes_other]
        simp only [bsize] at here new ⊢
        omega
      · rw [update_of_ne]
        intro equal
        have values := congrArg Fin.val (distinct _ equal)
        exact here values
    · rfl

end Written

/-! The other inodes. -/

/-- What the change of one inode leaves of the others. -/
structure Aside (sb : Superblock) (i : Nat) (block : Nat → Block)
    (claims : Nat → AddrSlot → Nat) (block' : Nat → Block)
    (claims' : Nat → AddrSlot → Nat) : Prop where
  others : ∀ j, j ≠ i → claims' j = claims j
  data : ∀ j place, j ≠ i → claims j place ≠ 0 → block' (claims j place) = block (claims j place)
  dinodes : ∀ j, j ≠ i → j < sb.ninodes → dinode sb block' j = dinode sb block j

namespace Aside

variable {sb : Superblock} {i : Nat} {block block' block'' : Nat → Block}
  {claims claims' claims'' : Nat → AddrSlot → Nat}

theorem trans (first : Aside sb i block claims block' claims')
    (second : Aside sb i block' claims' block'' claims'') :
    Aside sb i block claims block'' claims'' where
  others := fun j other => (second.others j other).trans (first.others j other)
  data := by
    intro j place other claimed
    have same := first.others j other
    have later := second.data j place other (same ▸ claimed)
    rw [same] at later
    exact later.trans (first.data j place other claimed)
  dinodes := fun j other inode => (second.dinodes j other inode).trans (first.dinodes j other inode)

end Aside

theorem Extends.aside (grows : Extends sb i block claims block' claims') :
    Aside sb i block claims block' claims' where
  others := grows.others
  data := fun j place other claimed =>
    grows.data j place claimed fun same => (other same).elim
  dinodes := fun j _ inode => grows.dinodes j inode

section Holder

variable {Agent : Type} {sb : Superblock} {self : Agent} {ip : Fin ninode}
  {i : Nat} {volume finish : Volume Agent} {l : Live}
  {live : Nat → Option Live} {owner : Nat → Owner} {claims : Nat → AddrSlot → Nat}

namespace Holds

theorem fill (holds : Holds sb ip i volume l live owner claims) (wf : sb.WellFormed)
    (there : claims i (dataSlot bn) ≠ 0)
    (block : finish.block = update volume.block (claims i (dataSlot bn)) data)
    (spoilt : finish.spoilt = update volume.spoilt (claims i (dataSlot bn)) bad)
    (mem : finish.mem = volume.mem) : Holds sb ip i finish l live owner claims := by
  have owned := holds.layout.blocks.claimed there
  have area := (holds.layout.blocks.inside there).1
  refine {
    layout := ?_
    held := holds.held
    whole := holds.whole
    copy := mem ▸ holds.copy
    inum := mem ▸ holds.inum
    hands := holds.hands }
  rw [block, spoilt]
  refine holds.layout.fill wf data area ?_ ?_ ?_
  · intro j table
    exact dataSlot_ne_indirectBlock bn (Owner.slot.inj (owned.symm.trans table)).2
  · intro known mine
    cases owned.symm.trans mine
  · intro c wrong
    by_cases same : c = claims i (dataSlot bn)
    · rw [same, owned]
      exact dataSlot_ne_indirectBlock bn
    · rw [update_of_ne same] at wrong
      exact holds.layout.loose wrong

theorem fill_aside (holds : Holds sb ip i volume l live owner claims) (wf : sb.WellFormed)
    (there : claims i (dataSlot bn) ≠ 0) (data : Block) :
    Aside sb i volume.block claims (update volume.block (claims i (dataSlot bn)) data) claims where
  others := fun _ _ => rfl
  data := by
    intro j place other claimed
    refine update_of_ne (fun same => other ?_) ..
    exact (holds.layout.blocks.distinct there same).1
  dinodes := by
    intro j _ inode
    have early := wf.iblock_lt_data inode
    have area := (holds.layout.blocks.inside there).1
    exact dinode_update (by omega)

end Holds

/-- The holder has changed the block numbers of the inode and the data of
its blocks. -/
structure Reworked (sb : Superblock) (ip : Fin ninode) (i : Nat) (l : Live)
    (live : Nat → Option Live) (claims : Nat → AddrSlot → Nat)
    (volume finish : Volume Agent) (l' : Live) (owner' : Nat → Owner)
    (claims' : Nat → AddrSlot → Nat) : Prop where
  holds : Holds sb ip i finish l' (update live i (some l')) owner' claims'
  aside : Aside sb i volume.block claims finish.block claims'
  copy : l'.copy = { l.copy with addrs := l'.copy.addrs }
  mem : finish.mem = volume.mem.setCopy ip l'.copy

theorem Holds.reworked (holds : Holds sb ip i volume l live owner claims) :
    Reworked sb ip i l live claims volume volume l owner claims where
  holds := by
    rw [holds.update_live]
    exact holds
  aside := Extends.refl.aside
  copy := rfl
  mem := by
    rw [← holds.copy, Mem.setCopy_self]

theorem Reworked.trans (first : Reworked sb ip i l live claims volume middle l' owner' claims')
    (second : Reworked sb ip i l' (update live i (some l')) claims' middle finish l'' owner''
      claims'') : Reworked sb ip i l live claims volume finish l'' owner'' claims'' where
  holds := by
    have holds := second.holds
    rwa [update_idem] at holds
  aside := first.aside.trans second.aside
  copy := by rw [second.copy, first.copy]
  mem := by rw [second.mem, first.mem, Mem.setCopy_setCopy]

theorem Mapped.reworked (wf : sb.WellFormed)
    (mapped : Mapped sb ip i l live claims volume (dataSlot bn) addr middle l' owner' claims')
    (positive : addr ≠ 0) (block : finish.block = update middle.block addr data)
    (spoilt : finish.spoilt = update middle.spoilt addr bad) (mem : finish.mem = middle.mem) :
    Reworked sb ip i l live claims volume finish l' owner' claims' := by
  have found := mapped.found positive
  rw [← found] at positive block spoilt
  exact {
    holds := mapped.holds.fill wf positive block spoilt mem
    aside := mapped.grows.aside.trans (block ▸ mapped.holds.fill_aside wf positive data)
    copy := mapped.copy
    mem := mem.trans mapped.mem }

theorem Mapped.filled
    (mapped : Mapped sb ip i l live claims volume place addr finish l' owner' claims')
    (filled : Filled (claims i) size) : Filled (claims' i) size := by
  intro bn bound
  have before := filled bn bound
  rw [mapped.grows.kept _ before]
  exact before

/-- The loop of writei(): how far it comes, and what the file then has. -/
structure LoopDone (sb : Superblock) (ip : Fin ninode) (i : Nat) (l : Live)
    (live : Nat → Option Live) (claims : Nat → AddrSlot → Nat)
    (src : Source) (size off left tot : Nat) (volume : Volume Agent)
    (result : Nat × Nat) (finish : Volume Agent) (l' : Live)
    (owner' : Nat → Owner) (claims' : Nat → AddrSlot → Nat) : Prop where
  reworked : Reworked sb ip i l live claims volume finish l' owner' claims'
  filled : Filled (claims' i) (max size result.1)
  progress : off ≤ result.1 ∧ result.1 + tot = off + result.2 ∧ result.2 ≤ tot + left
  written : ∀ {first : Nat} {old : Nat → UInt8}, src.Readable (tot + left) → off = first + tot →
    Written size first old src volume.block (claims i) off →
      Written size first old src finish.block (claims' i) result.1
  full : src.Readable (tot + left) → result.2 < tot + left →
    ∀ c, c < sb.size → used sb finish.block c = true

variable {src : Source}

theorem Mapped.written
    (mapped : Mapped sb ip i l live claims volume (dataSlot bn) addr finish l' owner' claims')
    (filled : Filled (claims i) (max size last))
    (written : Written size first old src volume.block (claims i) last) :
    Written size first old src finish.block (claims' i) last := by
  refine written.congr filled fun bn there => ?_
  rw [mapped.grows.kept _ there]
  exact mapped.grows.data i _ there fun _ => dataSlot_ne_indirectBlock bn

theorem Mapped.written_copied (mapped : Mapped sb ip i l live claims volume
      (dataSlot ⟨off / bsize, range⟩) addr finish l' owner' claims') (positive : addr ≠ 0)
    (whole : (src.copied tot m).length = m) (start : off = first + tot)
    (inside : off % bsize + m ≤ bsize)
    (written : Written size first old src finish.block (claims' i) off) :
    Written size first old src (finish.logWrite addr
        ((finish.block addr).setBytes (off % bsize) (src.copied tot m))).block (claims' i) (off + m)
      := by
  have found := mapped.found positive
  have step := written.step (by omega) range (fun bn same => ?_)
    (whole.symm ▸ inside) fun position bound => ?_
  · rw [found, whole] at step
    exact step
  · exact dataSlot_inj (mapped.holds.layout.blocks.distinct (found ▸ positive) same).2
  · rw [src.copied_get bound]
    congr 1
    omega

theorem Holds.loopDone (holds : Holds sb ip i volume l live owner claims)
    (filled : Filled (claims i) (max size off)) :
    LoopDone sb ip i l live claims src size off 0 tot volume (off, tot) volume l owner claims where
  reworked := holds.reworked
  filled := filled
  progress := ⟨Nat.le_refl _, rfl, Nat.le_refl _⟩
  written := fun _ _ written => written
  full := fun _ short => (Nat.lt_irrefl _ short).elim

theorem Mapped.loopDone
    (mapped : Mapped sb ip i l live claims volume (dataSlot bn) 0 finish l' owner' claims')
    (filled : Filled (claims i) (max size off)) :
    LoopDone sb ip i l live claims src size off left tot volume (off,
        tot) finish l' owner' claims' where
  reworked := ⟨mapped.holds, mapped.grows.aside, mapped.copy, mapped.mem⟩
  filled := mapped.filled filled
  progress := ⟨Nat.le_refl _, rfl, Nat.le_add_right ..⟩
  written := fun _ _ written => mapped.written filled written
  full := fun _ _ => mapped.full rfl

theorem writeiLoop_spec (wf : sb.WellFormed) (holds : Holds sb ip i volume l live owner claims)
    (filled : Filled (claims i) (max size off)) (enough : left ≤ rounds)
    (inside : off + left ≤ maxfile * bsize) :
    Runs self (writeiLoop sb ip src rounds off left tot) volume fun result finish => ∃ l' owner'
      claims', LoopDone sb ip i l live claims src size off left tot volume result finish l' owner'
      claims' := by
  induction rounds generalizing volume l live owner claims off left tot with
  | zero =>
    obtain rfl : left = 0 := by omega
    exact .pure ⟨_, _, _, holds.loopDone filled⟩
  | succ rounds induction =>
    rw [writeiLoop]
    split
    next none =>
      subst none
      exact .pure ⟨_, _, _, holds.loopDone filled⟩
    next some_ =>
      have range : off / bsize < maxfile := by
        simp only [bsize, maxfile] at inside ⊢
        omega
      refine .seq (bmap_spec wf holds ⟨off / bsize, range⟩) ?_
      rintro addr middle ⟨l', owner', claims', mapped⟩
      split
      next zero =>
        subst zero
        exact .pure ⟨_, _, _, mapped.loopDone filled⟩
      next positive =>
        generalize chunk : min left (bsize - off % bsize) = m
        have most : off % bsize + m ≤ bsize ∧ 0 < m ∧ m ≤ left := by
          simp only [bsize] at chunk ⊢
          omega
        have found := mapped.found positive
        have there : claims' i (dataSlot ⟨off / bsize, range⟩) ≠ 0 :=
          found ▸ positive
        refine .bind (Runs.copyin (fun whole => ?_) fun short => ?_)
        · have reworked : Reworked sb ip i l live claims volume
              (middle.logWrite addr ((middle.block addr).setBytes
                (off % bsize) (src.copied tot m))) l' owner' claims' :=
            mapped.reworked wf positive rfl rfl rfl
          have further := (mapped.filled filled).advance range there most.1
          refine (induction reworked.holds further (by omega)
            (by omega)).mono ?_
          rintro result finish ⟨l'', owner'', claims'', done⟩
          have progress := done.progress
          refine ⟨l'', owner'', claims'', {
            reworked := reworked.trans done.reworked
            filled := done.filled
            progress := by omega
            written := fun readable start written => ?_
            full := fun readable short => done.full ?_ ?_ }⟩
          · refine done.written ?_ (by omega) ?_
            · rw [Nat.add_assoc, Nat.add_sub_cancel' most.2.2]
              exact readable
            · exact mapped.written_copied positive whole (by omega)
                most.1 (mapped.written filled written)
          · rw [Nat.add_assoc, Nat.add_sub_cancel' most.2.2]
            exact readable
          · omega
        · refine .pure ⟨l', owner', claims', ?_⟩
          have unreadable : ¬src.Readable (tot + left) := fun readable =>
            short (src.copied_length readable (by omega))
          exact {
            reworked := mapped.reworked wf positive rfl rfl rfl
            filled := mapped.filled filled
            progress := ⟨Nat.le_refl _, rfl, Nat.le_add_right ..⟩
            written := fun readable => (unreadable readable).elim
            full := fun readable => (unreadable readable).elim }

/-! The new size and the dinode. -/

theorem Reworked.resize
    (reworked : Reworked sb ip i l live claims volume finish l' owner'
      claims') (small : size ≤ maxfile * bsize) (filled : Filled (claims' i) size) :
    Holds sb ip i
      { finish with
        mem := finish.mem.setCopy ip { (finish.mem.itable ip).copy with size := size } }
      { l' with
        copy := { l'.copy with size := size }
        synced := false }
      (update live i (some { l' with
        copy := { l'.copy with size := size }
        synced := false })) owner' claims' := by
  have holds := reworked.holds
  have known := holds.known
  have fits : ({ l'.copy with size := size } : Inode).Fits :=
    ⟨small.trans_lt (by decide), known.fits.addrs⟩
  have recopied := holds.layout.recopy holds.held fits rfl rfl fun whole =>
    ⟨small, known.whole whole ▸ filled⟩
  rw [update_idem] at recopied
  exact {
    layout := recopied
    held := update_self ..
    whole := holds.whole
    copy := by
      rw [Mem.setCopy_copy, holds.copy]
    inum := by
      rw [Mem.setCopy_key]
      exact holds.inum
    hands := holds.hands }

theorem iupdate_spec (wf : sb.WellFormed) (holds : Holds sb ip i volume l live owner claims)
    {post : Unit → Volume Agent → Prop} (after : ∀ finish : Volume Agent, finish.mem = volume.mem →
      finish.block = update volume.block (sb.iblock i)
        (Inode.store (volume.block (sb.iblock i)) (i % ipb) l.copy) →
      Holds sb ip i finish { l with synced := true }
        (update live i (some { l with synced := true })) owner claims → post () finish) :
    Runs self (iupdate sb ip) volume post := by
  refine .bind (Runs.readIp ?_)
  rw [holds.inum, holds.copy]
  refine Runs.logWrite rfl (after _ rfl rfl ?_)
  exact {
    layout := holds.layout.sync wf holds.held holds.whole
      fun bad => spoilt_of_logged (sb.iblock i) bad
    held := update_self ..
    whole := holds.whole
    copy := holds.copy
    inum := holds.inum
    hands := holds.hands }

theorem Holds.store_aside (holds : Holds sb ip i volume l live owner claims) (wf : sb.WellFormed)
    (copy : Inode) :
    Aside sb i volume.block claims (update volume.block (sb.iblock i)
        (Inode.store (volume.block (sb.iblock i)) (i % ipb) copy)) claims where
  others := fun _ _ => rfl
  data := by
    intro j place _ claimed
    have early := wf.iblock_lt_data holds.known.inode
    have area := (holds.layout.blocks.inside claimed).1
    exact update_of_ne (by omega) ..
  dinodes := fun j other _ => dinode_store_other copy other

/-- What writei() does to an inode that is held. -/
structure WriteDone (sb : Superblock) (ip : Fin ninode) (i : Nat)
    (l : Live) (live : Nat → Option Live) (claims : Nat → AddrSlot → Nat)
    (src : Source) (off n : Nat) (volume : Volume Agent) (tot : Nat)
    (finish : Volume Agent) (l' : Live) (owner' : Nat → Owner)
    (claims' : Nat → AddrSlot → Nat) : Prop where
  holds : Holds sb ip i finish l' (update live i (some l')) owner' claims'
  synced : l'.synced = true
  aside : Aside sb i volume.block claims finish.block claims'
  copy : l'.copy = { l.copy with
    size := max l.copy.size (off + tot)
    addrs := l'.copy.addrs }
  mem : finish.mem = volume.mem.setCopy ip l'.copy
  most : tot ≤ n
  written : src.Readable n → Written l.copy.size off
    (fileByte volume.block (claims i)) src finish.block (claims' i) (off + tot)
  full : src.Readable n → tot < n → ∀ c, c < sb.size → used sb finish.block c = true

theorem writei_spec (wf : sb.WellFormed) (holds : Holds sb ip i volume l live owner claims)
    (off n : Nat) :
    Runs self (writei sb ip src off n) volume fun answer finish => if l.copy.size < off ∨
      (off + n) % 2 ^ 32 < off ∨ maxfile * bsize < off + n then answer = -1 ∧ finish =
      volume else ∃ (tot : Nat) (l' : Live) (owner' : Nat → Owner) (claims' : Nat → AddrSlot → Nat),
      answer = tot ∧ WriteDone sb ip i l live claims src off n volume tot finish l' owner' claims'
      := by
  have known := holds.known
  have noHoles := known.noHoles holds.whole
  have filled : Filled (claims i) l.copy.size := by
    rw [known.whole holds.whole]
    exact noHoles.filled
  refine .bind (Runs.readIp ?_)
  rw [holds.copy]
  split
  next outside =>
    refine .pure ?_
    rw [if_pos (by tauto)]
    exact ⟨rfl, rfl⟩
  next inside =>
    split
    next large =>
      refine .pure ?_
      rw [if_pos (by tauto)]
      exact ⟨rfl, rfl⟩
    next small =>
      have fine : ¬(l.copy.size < off ∨ (off + n) % 2 ^ 32 < off ∨
          maxfile * bsize < off + n) := by tauto
      simp only [if_neg fine]
      have reached : max l.copy.size off = l.copy.size := by omega
      refine .seq (writeiLoop_spec wf holds (reached.symm ▸ filled) (Nat.le_refl _) (by omega)) ?_
      rintro ⟨last, tot⟩ middle ⟨l', owner', claims', done⟩
      have progress := done.progress
      have reworked := done.reworked
      dsimp only at progress
      obtain rfl : last = off + tot := by omega
      have sizes : (middle.mem.itable ip).copy.size = l.copy.size := by
        rw [reworked.holds.copy, reworked.copy]
      have size : (if (middle.mem.itable ip).copy.size < off + tot then
          off + tot else (middle.mem.itable ip).copy.size) = max l.copy.size (off + tot) := by
        rw [sizes]
        split <;> omega
      have bound : max l.copy.size (off + tot) ≤ maxfile * bsize :=
        max_le noHoles.small (by omega)
      have resized := reworked.resize bound done.filled
      have inode := resized.known.inode
      refine .bind (Runs.writeIp ?_)
      rw [size]
      refine .bind (iupdate_spec wf resized ?_)
      intro finish mem block holds
      rw [update_idem] at holds
      refine .pure ⟨tot, _, _, _, rfl, {
        holds := holds
        synced := rfl
        aside := reworked.aside.trans (block ▸ resized.store_aside wf _)
        copy := by rw [reworked.copy]
        mem := by
          rw [mem, reworked.holds.copy, reworked.mem, Mem.setCopy_setCopy]
        most := by omega
        written := fun readable => ?_
        full := fun readable short c onDisk => ?_ }⟩
      · have written := done.written ((Nat.zero_add n).symm ▸ readable)
          (Nat.add_zero off).symm (.start ..)
        refine written.congr done.filled fun bn there => ?_
        have area := (resized.layout.blocks.inside there).1
        have early := wf.iblock_lt_data inode
        rw [block]
        exact update_of_ne (by omega) ..
      · rw [block, used_update (wf.iblock_lt inode).ne']
        refine done.full ((Nat.zero_add n).symm ▸ readable) ?_ c onDisk
        exact (Nat.zero_add n).symm ▸ short

end Holder

end Xv6Lottery.Disk
