import Xv6Lottery.Bio.Cache
import Xv6Lottery.Lib.Tally
import Xv6Lottery.Lib.Transition

namespace Xv6Lottery

open Function

/-! The list of the buffer cache, its counts, and the buffers that bget()
recycles. -/

namespace Bio

variable {Process : Type}

/-- The list goes through all buffers, the last released first. -/
structure Ordered (bio : Bio Process) (order : List (Fin nbuf)) : Prop where
  ring : Ring.Holds bio.links none (order.map some)
  all : ∀ b, b ∈ order
  sorted : order.Pairwise (bio.released · > bio.released ·)

def holders (lock : Option Process) : Nat :=
  if lock = none then 0 else 1

@[simp] theorem holders_none : holders (none : Option Process) = 0 := rfl

@[simp] theorem holders_some (process : Process) : holders (some process) = 1 := rfl

variable [Fintype Process]

structure Sound (bio : Bio Process) : Prop where
  cache : ∀ process, (bio.point process).HoldsCache ↔ bio.cacheLock = some process
  order : ∃ order, bio.Ordered order
  stamps : ∀ b, bio.released b < bio.clock
  unique : ∀ b other, (bio.buf b).key.dev ≠ 0 → (bio.buf b).key = (bio.buf other).key → b = other
  counted : ∀ b, (bio.buf b).refcnt =
    ∑ process, (bio.point process).counts b + holders (bio.buf b).lock + bio.pins b
  dev : ∀ process key, bio.point process = .wantGet key ∨
    bio.point process = .getting key → key.dev ≠ 0
  reading : ∀ process b, bio.point process = .reading b → (bio.buf b).lock = some process
  unpinning : ∀ process b, bio.point process = .unpinning b → 0 < bio.pins b

/-! The loops of bget(). -/

section Search

variable {bio : Bio Process} {order : List (Fin nbuf)}

section

variable (ordered : bio.Ordered order)

include ordered

omit [Fintype Process] in
theorem Ordered.length_le : order.length ≤ nbuf := by
  have nodup : order.Nodup :=
    (List.nodup_cons.mp ordered.ring.nodup).2.of_map
  have bound := nodup.length_le_card
  rwa [Fintype.card_fin] at bound

omit [Fintype Process] in
theorem Ordered.search_next (test : Fin nbuf → Bool) :
    search bio.links.next test = some ((order.find? test).map some) := by
  have bound := ordered.length_le
  unfold search
  rw [Ring.scan_chain ordered.ring.chain (List.nodup_cons.mp ordered.ring.nodup).1
    (by rw [List.length_map]; omega), List.find?_map]
  rfl

omit [Fintype Process] in
theorem Ordered.search_prev (test : Fin nbuf → Bool) :
    search bio.links.prev test = some ((order.reverse.find? test).map some) := by
  have bound := ordered.length_le
  have backwards := Ring.chain_flip ordered.ring.chain
  rw [← List.map_reverse] at backwards
  have scanned : Ring.scan bio.links.flip.next none (·.any test) (nbuf + 1)
      (bio.links.flip.next none) = _ :=
    Ring.scan_chain backwards (by simp)
      (by rw [List.length_map, List.length_reverse]; omega)
  refine scanned.trans ?_
  rw [List.find?_map]
  rfl

omit [Fintype Process] in
theorem Ordered.find_eq (key : BlockKey) : bio.find key =
      match order.find? fun b => (bio.buf b).key = key with
      | some b => .cached b
      | none =>
        match order.reverse.find? fun b => (bio.buf b).refcnt = 0 with
        | some b => .recycled b
        | none => .noBuffers := by
  unfold find
  rw [ordered.search_next, ordered.search_prev]
  cases order.find? fun b => (bio.buf b).key = key with
  | some b => rfl
  | none =>
    cases order.reverse.find? fun b => (bio.buf b).refcnt = 0 with
    | some b => rfl
    | none => rfl

omit [Fintype Process] in
/-- bget() recycles the unused buffer that was released first. -/
theorem Ordered.find_recycled (found : bio.find key = .recycled b) :
    (bio.buf b).refcnt = 0 ∧ (∀ other, (bio.buf other).key ≠ key) ∧ ∀ other,
      (bio.buf other).refcnt = 0 → other ≠ b → bio.released b < bio.released other := by
  rw [ordered.find_eq] at found
  split at found
  · cases found
  · next miss =>
      have absent : ∀ other, (bio.buf other).key ≠ key := fun other => by
        simpa using List.find?_eq_none.mp miss other (ordered.all other)
      split at found
      · next hit =>
          cases found
          obtain ⟨unused, before, after, split, earlier⟩ :=
            List.find?_eq_some_iff_append.mp hit
          refine ⟨by simpa using unused, absent, ?_⟩
          intro other free differs
          have sorted : order.reverse.Pairwise (bio.released · < bio.released ·) :=
            List.pairwise_reverse.mpr ordered.sorted
          have member : other ∈ order.reverse := by
            simpa using ordered.all other
          rw [split] at member sorted
          rcases List.mem_append.mp member with front | back
          · have used := earlier other front
            simp [free] at used
          · have back := (List.mem_cons.mp back).resolve_left differs
            exact (List.pairwise_cons.mp (List.pairwise_append.mp sorted).2.1).1 other back
      · cases found

end

end Search

/-! binit(). -/

omit [Fintype Process] in
theorem binit_ring (bufs : List (Fin nbuf)) {links : Ring.Links BufNode}
    (ring : Ring.Holds links none (order.map some)) (nodup : (bufs ++ order).Nodup) :
    Ring.Holds (bufs.foldl binitLinks links) none ((bufs.reverse ++ order).map some) := by
  induction bufs generalizing links order with
  | nil => exact ring
  | cons b rest induction =>
    rw [List.foldl_cons, List.reverse_cons, List.append_assoc]
    rw [List.cons_append, List.nodup_cons] at nodup
    refine induction (ring.insert ?_) ?_
    · have fresh : b ∉ order := fun member =>
        nodup.1 (List.mem_append_right _ member)
      simpa using fresh
    · have moved : (rest ++ b :: order).Perm (b :: (rest ++ order)) :=
        List.perm_middle
      exact moved.nodup_iff.mpr (List.nodup_cons.mpr nodup)

theorem binit_sound (disk : BlockKey → Block) : (binit disk : Bio Process).Sound where
  cache _ := ⟨nofun, nofun⟩
  order := by
    refine ⟨(List.finRange nbuf).reverse, ?_, ?_, ?_⟩
    · have empty : Ring.Holds { next := fun _ => none, prev := fun _ => none }
          (none : BufNode) (([] : List (Fin nbuf)).map some) :=
        ⟨⟨rfl, rfl⟩, by simp⟩
      have ring := binit_ring (List.finRange nbuf) empty (by simpa using List.nodup_finRange nbuf)
      rwa [List.append_nil] at ring
    · exact fun b => by simp
    · rw [List.pairwise_reverse]
      exact List.pairwise_lt_finRange nbuf
  stamps b := b.isLt
  unique _ _ := fun wrong => absurd rfl wrong
  counted _ := by
    change 0 = ∑ _ : Process, 0 + 0 + 0
    simp
  dev _ _ := by
    rintro (wrong | wrong) <;> cases wrong
  reading _ _ := nofun
  unpinning _ _ := nofun

/-! What a step keeps. -/

namespace Sound

variable {bio next : Bio Process} {self : Process} {point : BioPoint}
  {b : Fin nbuf} (sound : bio.Sound)

include sound

theorem alone (mine : (bio.point self).HoldsCache) (differs : other ≠ self) :
    ¬(bio.point other).HoldsCache := by
  intro theirs
  have first := (sound.cache self).mp mine
  have second := (sound.cache other).mp theirs
  exact differs (Option.some.inj (second.symm.trans first))

theorem not_cache (here : bio.point self = point)
    (without : ¬point.HoldsCache) : bio.cacheLock ≠ some self := by
  intro taken
  have holds := (sound.cache self).mpr taken
  rw [here] at holds
  exact without holds

omit [Fintype Process] sound in
theorem others_take (free : bio.cacheLock = none) (other : Process) (differs : other ≠ self) :
    some self = some other ↔ bio.cacheLock = some other := by
  rw [free]
  exact iff_of_false (fun same => differs (Option.some.inj same).symm) nofun

theorem others_release (here : (bio.point self).HoldsCache) (other : Process)
    (differs : other ≠ self) : none = some other ↔ bio.cacheLock = some other := by
  rw [(sound.cache self).mp here]
  exact iff_of_false nofun fun same => differs (Option.some.inj same).symm

theorem counts_le (process : Process) (b : Fin nbuf) :
    (bio.point process).counts b + holders (bio.buf b).lock + bio.pins b ≤ (bio.buf b).refcnt := by
  have bound : (bio.point process).counts b ≤ ∑ process, (bio.point process).counts b :=
    Finset.single_le_sum (f := fun process => (bio.point process).counts b)
      (fun _ _ => Nat.zero_le _) (Finset.mem_univ process)
  rw [sound.counted b]
  omega

theorem stop (disk : BlockKey → Block) (panic : Option BioPanic) :
    { bio with disk := disk, panic := panic }.Sound :=
  { sound with order := sound.order.imp fun _ ordered =>
      ⟨ordered.ring, ordered.all, ordered.sorted⟩ }

variable [DecidableEq Process]

section

variable (moved : next.point = update bio.point self point)

include moved

/-- A step after which the references of the process are counted as before. -/
theorem step
    (holds : point.HoldsCache ↔ next.cacheLock = some self)
    (others : ∀ other, other ≠ self → (next.cacheLock = some other ↔ bio.cacheLock = some other))
    (order : ∃ order, next.Ordered order) (stamps : ∀ b, next.released b < next.clock)
    (unique : ∀ b other, (next.buf b).key.dev ≠ 0 → (next.buf b).key = (next.buf other).key → b =
      other) (balance : ∀ b, (next.buf b).refcnt + (bio.point self).counts b + holders
      (bio.buf b).lock + bio.pins b = (bio.buf b).refcnt + point.counts b + holders
      (next.buf b).lock + next.pins b)
    (dev : ∀ key, point = .wantGet key ∨ point = .getting key → key.dev ≠ 0)
    (reading : ∀ b, point = .reading b → (next.buf b).lock = some self)
    (unpinning : ∀ b, point = .unpinning b → 0 < next.pins b)
    (locks : ∀ other b, other ≠ self → (bio.buf b).lock = some other → (next.buf b).lock =
      some other) (pins : (bio.point self).HoldsCache ∨ ∀ b, bio.pins b ≤ next.pins b) :
    next.Sound := by
  have own : next.point self = point := by
    rw [moved, update_self]
  have theirs : ∀ other, other ≠ self →
      next.point other = bio.point other := fun other differs => by
    rw [moved, update_of_ne differs]
  refine {
    cache := fun process => ?_
    order := order
    stamps := stamps
    unique := unique
    counted := fun b => ?_
    dev := fun process key => ?_
    reading := fun process b here => ?_
    unpinning := fun process b here => ?_ }
  · by_cases same : process = self
    · rw [same, own]
      exact holds
    · rw [theirs process same, others process same]
      exact sound.cache process
  · have sums := Tally.sum_update Finset.univ (BioPoint.counts · b) bio.point
      (Finset.mem_univ self) point
    have before := sound.counted b
    have change := balance b
    rw [moved]
    omega
  · by_cases same : process = self
    · rw [same, own]
      exact dev key
    · rw [theirs process same]
      exact sound.dev process key
  · by_cases same : process = self
    · rw [same, own] at here
      rw [same]
      exact reading b here
    · rw [theirs process same] at here
      exact locks process b same (sound.reading process b here)
  · by_cases same : process = self
    · rw [same, own] at here
      exact unpinning b here
    · rw [theirs process same] at here
      rcases pins with mine | more
      · exact absurd (by rw [here]; trivial) (sound.alone mine same)
      · exact (sound.unpinning process b here).trans_le (more b)

theorem keep (links : next.links = bio.links)
    (clock : next.clock = bio.clock) (released : next.released = bio.released)
    (keys : ∀ b, (next.buf b).key = (bio.buf b).key)
    (holds : point.HoldsCache ↔ next.cacheLock = some self)
    (others : ∀ other, other ≠ self → (next.cacheLock = some other ↔ bio.cacheLock = some other))
    (balance : ∀ b, (next.buf b).refcnt + (bio.point self).counts b + holders (bio.buf b).lock +
      bio.pins b = (bio.buf b).refcnt + point.counts b + holders (next.buf b).lock + next.pins b)
    (dev : ∀ key, point = .wantGet key ∨ point = .getting key → key.dev ≠ 0)
    (reading : ∀ b, point = .reading b → (next.buf b).lock = some self)
    (unpinning : ∀ b, point = .unpinning b → 0 < next.pins b)
    (locks : ∀ other b, other ≠ self → (bio.buf b).lock = some other → (next.buf b).lock =
      some other) (pins : (bio.point self).HoldsCache ∨ ∀ b, bio.pins b ≤ next.pins b) :
    next.Sound := by
  obtain ⟨order, ordered⟩ := sound.order
  refine sound.step moved holds others ⟨order, ?_, ordered.all, ?_⟩ ?_ ?_
    balance dev reading unpinning locks pins
  · rw [links]
    exact ordered.ring
  · rw [released]
    exact ordered.sorted
  · rw [released, clock]
    exact sound.stamps
  · intro b other
    rw [keys, keys]
    exact sound.unique b other

theorem walk (links : next.links = bio.links)
    (clock : next.clock = bio.clock) (released : next.released = bio.released)
    (buf : next.buf = bio.buf) (pins : next.pins = bio.pins)
    (holds : point.HoldsCache ↔ next.cacheLock = some self)
    (others : ∀ other, other ≠ self → (next.cacheLock = some other ↔ bio.cacheLock = some other))
    (counts : point.counts = (bio.point self).counts)
    (dev : ∀ key, point = .wantGet key ∨ point = .getting key → key.dev ≠ 0)
    (reading : ∀ b, point = .reading b → (bio.buf b).lock = some self)
    (unpinning : ∀ b, point = .unpinning b → 0 < bio.pins b) : next.Sound := by
  refine sound.keep moved links clock released (fun _ => by rw [buf]) holds
    others ?_ dev ?_ ?_ ?_ (.inr fun _ => by rw [pins])
  · intro b
    rw [buf, pins, counts]
  · rwa [buf]
  · rwa [pins]
  · intro other b _ taken
    rw [buf]
    exact taken

theorem keep_one
    (links : next.links = bio.links) (clock : next.clock = bio.clock)
    (released : next.released = bio.released) (buf : next.buf = update bio.buf b fields)
    (key : fields.key = (bio.buf b).key) (holds : point.HoldsCache ↔ next.cacheLock = some self)
    (others : ∀ other, other ≠ self → (next.cacheLock = some other ↔ bio.cacheLock = some other))
    (balance : fields.refcnt + (bio.point self).counts b + holders (bio.buf b).lock + bio.pins b =
      (bio.buf b).refcnt + point.counts b + holders fields.lock + next.pins b)
    (elsewhere : ∀ other, other ≠ b → (bio.point self).counts other + bio.pins other =
      point.counts other + next.pins other)
    (dev : ∀ key, point = .wantGet key ∨ point = .getting key → key.dev ≠ 0)
    (reading : ∀ other, point = .reading other → other = b ∧ fields.lock = some self)
    (unpinning : ∀ b, point ≠ .unpinning b) (lock : fields.lock = (bio.buf b).lock ∨ ∀ other,
      other ≠ self → (bio.buf b).lock ≠ some other)
    (pins : (bio.point self).HoldsCache ∨ ∀ b, bio.pins b ≤ next.pins b) : next.Sound := by
  have here : next.buf b = fields := by
    rw [buf, update_self]
  have there : ∀ other, other ≠ b → next.buf other = bio.buf other :=
    fun other differs => by rw [buf, update_of_ne differs]
  refine sound.keep moved links clock released ?_ holds others ?_ dev ?_
    (fun b same => absurd same (unpinning b)) ?_ pins
  · intro other
    by_cases same : other = b
    · rw [same, here, key]
    · rw [there other same]
  · intro other
    by_cases same : other = b
    · rw [same, here]
      exact balance
    · rw [there other same]
      have rest := elsewhere other same
      omega
  · intro other same
    obtain ⟨rfl, taken⟩ := reading other same
    rw [here]
    exact taken
  · intro process other differs taken
    by_cases same : other = b
    · subst same
      rw [here]
      rcases lock with kept | free
      · rw [kept]
        exact taken
      · exact absurd taken (free process differs)
    · rw [there other same]
      exact taken

end

section

variable (here : bio.point self = .getting key)

include here

theorem recycle
    (found : bio.find key = .recycled b) : (bio.bget self key).Sound := by
  obtain ⟨order, ordered⟩ := sound.order
  have ⟨unused, absent, _⟩ := ordered.find_recycled found
  have holder : (bio.point self).HoldsCache := by
    rw [here]
    trivial
  unfold bget
  rw [found]
  refine sound.step rfl (iff_of_false nofun nofun)
    (sound.others_release holder) ⟨order, ordered.ring, ordered.all,
      ordered.sorted⟩ sound.stamps ?_ ?_ ?_ nofun nofun ?_ (.inl holder)
  · intro first second
    change (update bio.buf b _ first).key.dev ≠ 0 → (update bio.buf b _ first).key =
        (update bio.buf b _ second).key → first = second
    by_cases atFirst : first = b
    · by_cases atSecond : second = b
      · intros
        rw [atFirst, atSecond]
      · rw [atFirst, update_self, update_of_ne atSecond]
        exact fun _ same => absurd same.symm (absent second)
    · by_cases atSecond : second = b
      · rw [atSecond, update_self, update_of_ne atFirst]
        exact fun _ same => absurd same (absent first)
      · rw [update_of_ne atFirst, update_of_ne atSecond]
        exact sound.unique first second
  · intro other
    rw [here]
    change (update bio.buf b _ other).refcnt + 0 + _ +
        bio.pins other = _ + (if b = other then 1 else 0) +
      holders (update bio.buf b _ other).lock + bio.pins other
    by_cases same : other = b
    · subst same
      rw [update_self, if_pos rfl, unused]
    · rw [update_of_ne same, if_neg (Ne.symm same)]
  · rintro key (wrong | wrong) <;> cases wrong
  · intro process other _ taken
    change (update bio.buf b _ other).lock = some process
    by_cases same : other = b
    · subst same
      rw [update_self]
      exact taken
    · rw [update_of_ne same]
      exact taken

theorem hit
    (found : bio.find key = .cached b) : (bio.bget self key).Sound := by
  have holder : (bio.point self).HoldsCache := by
    rw [here]
    trivial
  unfold bget
  rw [found]
  refine sound.keep_one rfl rfl rfl rfl rfl rfl (iff_of_false nofun nofun)
    (sound.others_release holder) ?_ ?_ ?_ nofun nofun (.inl rfl) (.inl holder)
  · rw [here]
    change _ + 1 + 0 + _ + _ = _ + (if b = b then 1 else 0) + _ + _
    rw [if_pos rfl]
    rfl
  · intro other differs
    rw [here]
    change 0 + _ = (if b = other then 1 else 0) + _
    rw [if_neg (Ne.symm differs)]
    rfl
  · rintro key (wrong | wrong) <;> cases wrong

theorem bget : (bio.bget self key).Sound := by
  cases found : bio.find key with
  | cached b => exact sound.hit here found
  | recycled b => exact sound.recycle here found
  | noBuffers =>
    unfold Bio.bget
    rw [found]
    exact sound.stop _ _
  | loops =>
    unfold Bio.bget
    rw [found]
    exact sound

end

omit [DecidableEq Process] in
theorem moveToFront (b : Fin nbuf) : (bio.moveToFront b).Sound := by
  obtain ⟨order, ordered⟩ := sound.order
  obtain ⟨front, back, rfl⟩ := List.append_of_mem (ordered.all b)
  have ring := ordered.ring
  have distinct := (List.nodup_cons.mp ring.nodup).2.of_map
  have fresh : b ∉ front ++ back :=
    (List.nodup_middle.mp distinct).notMem
  rw [List.map_append, List.map_cons] at ring
  refine { sound with
    order := ⟨b :: (front ++ back), ?_, ?_, ?_⟩
    stamps := fun other => ?_ }
  · have taken := ring.unlink
    rw [← List.map_append] at taken
    exact taken.insert (by simpa using fresh)
  · intro other
    have member := ordered.all other
    simp only [List.mem_append, List.mem_cons] at member ⊢
    tauto
  · have same : ∀ other ∈ front ++ back, (bio.moveToFront b).released other = bio.released other :=
      fun other member => update_of_ne (fun here : other = b =>
        fresh (here ▸ member)) ..
    refine List.pairwise_cons.mpr ⟨fun other member => ?_, ?_⟩
    · rw [same other member]
      change update bio.released b bio.clock b > _
      rw [update_self]
      exact sound.stamps other
    · have sorted := ordered.sorted.sublist ((List.Sublist.refl front).append
        (List.sublist_cons_self b back))
      refine sorted.imp_of_mem fun first second later => ?_
      rw [same _ first, same _ second]
      exact later
  · change update bio.released b bio.clock other < bio.clock + 1
    by_cases here : other = b
    · rw [here, update_self]
      exact Nat.lt_succ_self _
    · rw [update_of_ne here]
      exact (sound.stamps other).trans (Nat.lt_succ_self _)

theorem drop (here : bio.point self = .dropping b) : (bio.drop self b).Sound := by
  have holder : (bio.point self).HoldsCache := by
    rw [here]
    trivial
  have count : (bio.point self).counts b = 1 := by
    rw [here]
    exact if_pos rfl
  have bound := sound.counts_le self b
  have dropped : (({ bio with cacheLock := none }.setBuf b
      { bio.buf b with refcnt := (bio.buf b).refcnt - 1 }).setPoint self .idle).Sound := by
    refine sound.keep_one rfl rfl rfl rfl rfl rfl (iff_of_false nofun nofun)
      (sound.others_release holder) ?_ ?_ ?_ nofun nofun (.inl rfl) (.inl holder)
    · change (bio.buf b).refcnt - 1 + _ + _ + bio.pins b =
        _ + 0 + holders (bio.buf b).lock + bio.pins b
      omega
    · intro other differs
      rw [here]
      change (if b = other then 1 else 0) + bio.pins other = 0 + bio.pins other
      rw [if_neg (Ne.symm differs)]
    · rintro key (wrong | wrong) <;> cases wrong
  unfold Bio.drop
  simp only
  split
  · exact dropped.moveToFront b
  · exact dropped

theorem repin (here : (bio.point self).HoldsCache)
    (uncounted : (bio.point self).counts = fun _ => 0)
    (moved : next.point = update bio.point self .idle)
    (links : next.links = bio.links) (clock : next.clock = bio.clock)
    (released : next.released = bio.released) (free : next.cacheLock = none)
    (buf : next.buf = update bio.buf b { bio.buf b with refcnt := refcnt })
    (pins : next.pins = update bio.pins b pinned)
    (balance : refcnt + bio.pins b = (bio.buf b).refcnt + pinned) : next.Sound := by
  refine sound.keep_one moved links clock released buf rfl
    (iff_of_false nofun (by rw [free]; nofun))
    (by rw [free]; exact sound.others_release here) ?_ ?_ ?_ nofun nofun
    (.inl rfl) (.inl here)
  · rw [uncounted, pins, update_self]
    change refcnt + 0 + holders (bio.buf b).lock + bio.pins b =
      _ + 0 + holders (bio.buf b).lock + pinned
    omega
  · intro other differs
    rw [uncounted, pins, update_of_ne differs]
    rfl
  · rintro key (wrong | wrong) <;> cases wrong

end Sound

variable [DecidableEq Process]

omit [Fintype Process] in
theorem At.still {bio : Bio Process} {point : BioPoint} (here : bio.At self point) :
    bio.point = update bio.point self point := by
  rw [← here.2, update_eq_self]

theorem Step.sound {bio next : Bio Process} {event : BioEvent Process}
    (taken : Step bio event next) (sound : bio.Sound) : next.Sound := by
  cases taken with
  | callBread here dev =>
    refine sound.walk rfl rfl rfl rfl rfl rfl (iff_of_false nofun (sound.not_cache here.2 nofun))
      (fun _ _ => Iff.rfl) (by rw [here.2]; rfl) ?_ nofun nofun
    rintro key (same | wrong)
    · cases same
      exact dev
    · cases wrong
  | acquireGet here free =>
    refine sound.walk rfl rfl rfl rfl rfl rfl (iff_of_true trivial rfl)
      (Sound.others_take free) (by rw [here.2]; rfl) ?_ nofun nofun
    rintro key (wrong | same)
    · cases wrong
    · cases same
      exact sound.dev _ _ (.inl here.2)
  | bget here => exact sound.bget here.2
  | @acquiresleep _ self b here free =>
    refine sound.keep_one rfl rfl rfl rfl rfl rfl
      (iff_of_false nofun (sound.not_cache here.2 nofun))
      (fun _ _ => Iff.rfl) ?_ ?_ ?_ ?_ nofun (.inr ?_) (.inr fun _ => Nat.le_refl _)
    · rw [here.2, free]
      change _ + (if b = b then 1 else 0) + holders none + _ =
        _ + 0 + holders (some self) + _
      rw [if_pos rfl, holders_none, holders_some]
      rfl
    · intro other differs
      rw [here.2]
      change (if b = other then 1 else 0) + _ = 0 + _
      rw [if_neg (Ne.symm differs)]
      rfl
    · rintro key (wrong | wrong) <;> cases wrong
    · rintro other ⟨⟩
      exact ⟨rfl, rfl⟩
    · rw [free]
      nofun
  | read here =>
    have free := sound.not_cache here.2 nofun
    unfold Bio.read
    split
    · refine sound.walk rfl rfl rfl rfl rfl rfl (iff_of_false nofun free)
        (fun _ _ => Iff.rfl) (by rw [here.2]; rfl) ?_ nofun nofun
      rintro key (wrong | wrong) <;> cases wrong
    · refine sound.keep_one rfl rfl rfl rfl rfl rfl
        (iff_of_false nofun free) (fun _ _ => Iff.rfl) ?_ ?_ ?_ nofun nofun
        (.inl rfl) (.inr fun _ => Nat.le_refl _)
      · rw [here.2]
        rfl
      · intros
        rw [here.2]
        rfl
      · rintro key (wrong | wrong) <;> cases wrong
  | change here mine =>
    refine sound.keep_one here.still rfl rfl rfl rfl rfl
      (iff_of_false nofun (sound.not_cache here.2 nofun))
      (fun _ _ => Iff.rfl) ?_ ?_ ?_ nofun nofun (.inl rfl) (.inr fun _ => Nat.le_refl _)
    · rw [here.2]
      rfl
    · intros
      rw [here.2]
      rfl
    · rintro key (wrong | wrong) <;> cases wrong
  | bwrite here =>
    unfold Bio.bwrite
    split
    · exact sound.stop _ _
    · exact sound.stop _ _
  | @callBrelse _ self b here =>
    unfold Bio.brelse
    split
    · exact sound.stop _ _
    · next passed =>
        have mine := not_not.mp passed
        refine sound.keep_one rfl rfl rfl rfl rfl rfl
          (iff_of_false nofun (sound.not_cache here.2 nofun))
          (fun _ _ => Iff.rfl) ?_ ?_ ?_ nofun nofun (.inr ?_) (.inr fun _ => Nat.le_refl _)
        · rw [here.2, mine]
          change _ + 0 + holders (some self) + _ =
            _ + (if b = b then 1 else 0) + holders none + _
          rw [if_pos rfl, holders_none, holders_some]
          rfl
        · intro other differs
          rw [here.2]
          change 0 + _ = (if b = other then 1 else 0) + _
          rw [if_neg (Ne.symm differs)]
          rfl
        · rintro key (wrong | wrong) <;> cases wrong
        · intro other differs
          rw [mine]
          exact fun same => differs (Option.some.inj same).symm
  | acquireDrop here free =>
    refine sound.walk rfl rfl rfl rfl rfl rfl (iff_of_true trivial rfl)
      (Sound.others_take free) (by rw [here.2]; rfl) ?_ nofun nofun
    rintro key (wrong | wrong) <;> cases wrong
  | drop here => exact sound.drop here.2
  | callBpin here mine free =>
    refine sound.walk rfl rfl rfl rfl rfl rfl (iff_of_true trivial rfl)
      (Sound.others_take free) (by rw [here.2]; rfl) ?_ nofun nofun
    rintro key (wrong | wrong) <;> cases wrong
  | bpin here =>
    exact sound.repin (by rw [here.2]; trivial) (by rw [here.2]; rfl) rfl
      rfl rfl rfl rfl rfl rfl (by omega)
  | callBunpin here some free =>
    refine sound.walk rfl rfl rfl rfl rfl rfl (iff_of_true trivial rfl)
      (Sound.others_take free) (by rw [here.2]; rfl) ?_ nofun ?_
    · rintro key (wrong | wrong) <;> cases wrong
    · rintro b ⟨⟩
      exact some
  | @bunpin _ self b here =>
    have pinned := sound.unpinning self b here.2
    have bound := sound.counts_le self b
    exact sound.repin (by rw [here.2]; trivial) (by rw [here.2]; rfl) rfl
      rfl rfl rfl rfl rfl rfl (by omega)

omit [Fintype Process] [DecidableEq Process] in
theorem setBuf_key (bio : Bio Process) (same : fields.key = (bio.buf b).key) :
    ((bio.setBuf b fields).buf other).key = (bio.buf other).key := by
  change (update bio.buf b fields other).key = _
  by_cases here : other = b
  · rw [here, update_self, same]
  · rw [update_of_ne here]

omit [Fintype Process] in
theorem Step.recycles {event : BioEvent Process} (taken : Step bio event next)
    (changed : (next.buf b).key ≠ (bio.buf b).key) :
    ∃ self key, bio.point self = .getting key ∧ bio.find key = .recycled b := by
  cases taken with
  | @bget _ self key here =>
    refine ⟨self, key, here.2, ?_⟩
    unfold Bio.bget at changed
    split at changed
    · exact (changed (setBuf_key _ rfl)).elim
    · next other found =>
        by_cases same : b = other
        · rw [same]
          exact found
        · refine absurd ?_ changed
          change (update bio.buf other _ b).key = _
          rw [update_of_ne same]
    · exact absurd rfl changed
    · exact absurd rfl changed
  | acquiresleep => exact (changed (setBuf_key _ rfl)).elim
  | read =>
    refine absurd ?_ changed
    unfold Bio.read
    split
    · rfl
    · exact setBuf_key _ rfl
  | change => exact (changed (setBuf_key _ rfl)).elim
  | bwrite =>
    refine absurd ?_ changed
    unfold Bio.bwrite
    split <;> rfl
  | callBrelse =>
    refine absurd ?_ changed
    unfold Bio.brelse
    split
    · rfl
    · exact setBuf_key _ rfl
  | drop =>
    refine absurd ?_ changed
    unfold Bio.drop
    simp only
    split
    · exact setBuf_key _ rfl
    · exact setBuf_key _ rfl
  | bpin => exact (changed (setBuf_key _ rfl)).elim
  | bunpin => exact (changed (setBuf_key _ rfl)).elim
  | _ => exact absurd rfl changed

/-! The counts of a buffer as numbers of processes. -/

theorem holders_card (lock : Option Process) :
    holders lock = (Finset.univ.filter fun process => lock = some process).card := by
  cases lock with
  | none => simp
  | some holder => simp [Finset.filter_eq]

omit [Fintype Process] [DecidableEq Process] in
theorem counts_eq {point : BioPoint} (b : Fin nbuf) (without : ¬point.HoldsCache) :
    point.counts b = (if point = .waiting b then 1 else 0) + if point =
      .releasing b then 1 else 0 := by
  cases point with
  | dropping other => exact absurd trivial without
  | _ => simp [BioPoint.counts]

omit [DecidableEq Process] in
theorem Sound.counts_card {bio : Bio Process} (sound : bio.Sound) (free : bio.cacheLock = none)
    (b : Fin nbuf) :
    ∑ process, (bio.point process).counts b = (Finset.univ.filter fun process => bio.point process =
        .waiting b).card + (Finset.univ.filter fun process => bio.point process =
        .releasing b).card := by
  rw [Finset.card_filter, Finset.card_filter, ← Finset.sum_add_distrib]
  refine Finset.sum_congr rfl fun process _ => counts_eq b fun holds => ?_
  have taken := (sound.cache process).mp holds
  rw [free] at taken
  cases taken

open Transition

theorem run_sound {disk : BlockKey → Block} {bio : Bio Process}
    (run : Run Step (binit disk) events bio) : bio.Sound :=
  run.invariant Sound (binit_sound disk) fun sound taken => taken.sound sound

omit [Fintype Process] [DecidableEq Process] in
theorem binit_find (disk : BlockKey → Block) {key : BlockKey} (dev : key.dev ≠ 0) :
    ∃ b, (binit disk : Bio (Fin 1)).find key = .recycled b := by
  obtain ⟨order, ordered⟩ := (binit_sound disk : (binit disk : Bio (Fin 1)).Sound).order
  have miss : order.find? (fun b =>
      ((binit disk : Bio (Fin 1)).buf b).key = key) = none := by
    refine List.find?_eq_none.mpr fun b _ same => dev ?_
    rw [← of_decide_eq_true same]
    rfl
  have hit : (order.reverse.find? fun b =>
      ((binit disk : Bio (Fin 1)).buf b).refcnt = 0).isSome := by
    rw [List.find?_isSome]
    exact ⟨⟨0, by decide⟩, by simpa using ordered.all _, rfl⟩
  obtain ⟨b, found⟩ := Option.isSome_iff_exists.mp hit
  refine ⟨b, ?_⟩
  rw [ordered.find_eq, miss, found]

omit [Fintype Process] in
theorem bget_recycled {bio : Bio Process} (found : bio.find key = .recycled b) :
    bio.bget self key = ({ bio with cacheLock := none }.setBuf b
      { bio.buf b with
          key := key, valid := false, refcnt := 1 }).setPoint self
        (.waiting b) := by
  unfold bget
  rw [found]

omit [Fintype Process] in
theorem run_bget {bio : Bio Process}
    (idle : bio.At self .idle) (free : bio.cacheLock = none)
    (dev : key.dev ≠ 0) (found : bio.find key = .recycled b) :
    ∃ events next, Run Step bio events next ∧ next.At self (.waiting b) ∧
      next.cacheLock = none ∧ next.pins = bio.pins ∧
      next.buf b = { bio.buf b with
        key := key, valid := false, refcnt := 1 } := by
  have calm := idle.1
  have called : Run Step bio [.callBread self key] _ :=
    .single (.callBread idle dev)
  have acquired : Run Step bio (_ ++ [.acquireGet self]) _ :=
    called.tail (.acquireGet ⟨calm, update_self ..⟩ free)
  have got : Run Step bio (_ ++ [.bget self]) _ :=
    acquired.tail (.bget ⟨calm, update_self ..⟩)
  have found : ({ bio.setPoint self (.wantGet key) with
      cacheLock := some self }.setPoint self (.getting key)).find key = .recycled b := found
  rw [bget_recycled found] at got
  exact ⟨_, _, got, ⟨calm, update_self ..⟩, rfl, rfl, update_self ..⟩

omit [Fintype Process] in
theorem run_read {self : Process} (here : bio.At self (.waiting b))
    (unlocked : (bio.buf b).lock = none) (invalid : (bio.buf b).valid = false) :
    ∃ events next, Run Step bio events next ∧ next.At self .idle ∧ next.cacheLock = bio.cacheLock ∧
      next.pins = bio.pins ∧ (next.buf b).refcnt = (bio.buf b).refcnt ∧ (next.buf b).lock =
      some self := by
  have calm := here.1
  have locked : Run Step bio [.acquiresleep self] _ :=
    .single (.acquiresleep here unlocked)
  generalize state : Bio.setPoint _ self (.reading b) = reading at locked
  have buf : reading.buf b = { bio.buf b with lock := some self } := by
    rw [← state]
    exact update_self ..
  have read := locked.tail (.read ⟨by rw [← state]; exact calm,
    by rw [← state]; exact update_self ..⟩)
  unfold Bio.read at read
  rw [if_neg (by rw [buf]; simp [invalid])] at read
  have after : (reading.setBuf b { reading.buf b with
      data := reading.disk (reading.buf b).key
      valid := true }).buf b = _ := update_self ..
  refine ⟨_, _, read, ⟨by rw [← state]; exact calm,
    update_self ..⟩, by rw [← state]; rfl, by rw [← state]; rfl,
    ?_, ?_⟩
  · refine (congrArg Buf.refcnt after).trans ?_
    rw [buf]
  · refine (congrArg Buf.lock after).trans ?_
    rw [buf]

theorem brelse_window :
    ∃ events b, ∃ bio : Bio (Fin 1), Run Step (binit fun _ => Vector.replicate bsize 0) events bio ∧
      bio.cacheLock = none ∧ (bio.buf b).refcnt = 1 ∧ (bio.buf b).lock = none ∧ bio.point 0 =
      .releasing b ∧ bio.pins b = 0 := by
  obtain ⟨b, found⟩ := binit_find (fun _ => Vector.replicate bsize 0)
    (by decide : (BlockKey.mk 1 1).dev ≠ 0)
  obtain ⟨first, waiting, got, here, free, pins, buf⟩ :=
    run_bget ⟨rfl, rfl⟩ rfl (by decide) found
  obtain ⟨second, held, read, idle, freeToo, pinsToo, count, mine⟩ :=
    run_read here (by rw [buf]; rfl) (by rw [buf])
  have released := (got.trans read).tail (.callBrelse (b := b) idle)
  unfold Bio.brelse at released
  rw [if_neg (not_not.mpr mine)] at released
  refine ⟨_, b, _, released, freeToo.trans free, ?_, ?_, ?_, ?_⟩
  · refine (congrArg Buf.refcnt (update_self b _ held.buf)).trans ?_
    rw [count, buf]
  · exact congrArg Buf.lock (update_self b _ held.buf)
  · exact update_self ..
  · change held.pins b = 0
    rw [pinsToo, pins]
    rfl

end Bio

end Xv6Lottery
