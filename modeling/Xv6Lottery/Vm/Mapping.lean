import Xv6Lottery.Vm.Table

/-! walkaddr(), mappages() and uvmunmap() on the map of a page table. -/

namespace Xv6Lottery.Vm

open RadixTree Function

theorem Page.aligned_plus (page : Page) (pages : Nat) :
    (page.addr + UInt64.ofNat (pages * 4096)).toNat % pgsize = 0 := by
  have aligned := page.aligned
  rw [UInt64.toNat_add, UInt64.toNat_ofNat']
  simp only [pgsize] at *
  omega

def Page.plus (page : Page) (pages : Nat) : Page where
  addr := page.addr + UInt64.ofNat (pages * 4096)
  aligned := page.aligned_plus pages

def mapped (before : Vpn → Option Leaf) (first : Nat) (pa : Page)
    (flags : UInt64) (count : Nat) (n : Vpn) : Option Leaf :=
  if first ≤ n.val ∧ n.val < first + count then
    some ⟨pa.plus (n.val - first), flags⟩
  else before n

def removed (before : Vpn → Option Leaf) (first count : Nat) (n : Vpn) : Option Leaf :=
  if first ≤ n.val ∧ n.val < first + count then none else before n

def userFrame (ram : Ram) (root : Page) (va : UInt64) : Option Page :=
  if small : va.toNat < maxva then
    (view ram root (vpn va small)).bind fun leaf =>
      if leaf.flags &&& pteU ≠ 0 then some leaf.frame else none
  else none

section

variable {ram after : Ram} {root pa : Page} {va a last perm stop : UInt64}
  {n : Vpn} {first count : Nat}

theorem decode_valid (valid : pte &&& pteV ≠ 0) :
    decode pte = some ⟨pte2pa pte, pteFlags pte⟩ := if_pos valid

theorem decode_none_iff : decode pte = none ↔ pte &&& pteV = 0 := by
  unfold decode
  split <;> simp_all

theorem decode_some (found : decode pte = some leaf) :
    pte &&& pteV ≠ 0 ∧ pte2pa pte = leaf.frame ∧ pteFlags pte = leaf.flags := by
  unfold decode at found
  split at found
  next valid =>
    cases found
    exact ⟨valid, rfl, rfl⟩
  next => cases found

/-! walkaddr() -/

theorem walkaddr_eq (table : Table ram root) (va : UInt64) :
    walkaddr root va ram = .ok ((userFrame ram root va).elim 0 Page.addr, ram) := by
  unfold walkaddr userFrame
  by_cases small : va.toNat < maxva
  · rw [if_neg (Nat.not_le.mpr small), dif_pos small]
    rcases walk_read table small with
      ⟨done, unmapped⟩ | ⟨pte, done, nonzero, points⟩
    · rw [done, unmapped]
      rfl
    · rw [done, points.view_eq]
      dsimp only
      rw [if_neg nonzero]
      by_cases valid : ram.word pte &&& pteV = 0
      · rw [if_pos valid, decode_none_iff.mpr valid]
        rfl
      · rw [if_neg valid, decode_valid valid]
        dsimp only [Option.bind_some]
        rw [pteFlags_and _ (by decide)]
        by_cases user : ram.word pte &&& pteU = 0
        · rw [if_pos user, if_neg (not_not.mpr user)]
          rfl
        · rw [if_neg user, if_pos user]
          rfl
  · rw [if_pos (Nat.not_lt.mp small), dif_neg small]
    rfl

/-! mappages() -/

theorem decode_pte (page : Page) (small : flags.toNat < 2 ^ 10) :
    decode (pa2pte page.addr ||| flags ||| pteV) = some ⟨page, flags ||| pteV⟩ := by
  have bound : (flags ||| pteV).toNat < 2 ^ 10 := by
    rw [UInt64.toNat_or]
    exact Nat.or_lt_two_pow small (by decide)
  have valid : (pa2pte page.addr ||| (flags ||| pteV)) &&& pteV ≠ 0 := by
    rw [← pteFlags_and _ (by decide), pteFlags_pte page bound]
    intro zero
    have bit := congrArg (fun pte : UInt64 => pte.toNat.testBit 0) zero
    simp [pteV] at bit
  rw [UInt64.or_assoc, decode_valid valid, pte2pa_pte page bound, pteFlags_pte page bound]

theorem mapped_zero (before : Vpn → Option Leaf) (first : Nat) (pa : Page)
    (flags : UInt64) : mapped before first pa flags 0 = before := by
  funext n
  exact if_neg fun ⟨low, high⟩ => absurd (high.trans_le low) (lt_irrefl _)

theorem Page.plus_zero (page : Page) : page.plus 0 = page :=
  Page.eq_of_toNat (congrArg UInt64.toNat (UInt64.add_zero _))

theorem Page.plus_plus (page : Page) (i j : Nat) : (page.plus i).plus j = page.plus (i + j) := by
  refine Page.eq_of_toNat (congrArg UInt64.toNat ?_)
  change page.addr + _ + _ = page.addr + _
  rw [Nat.add_mul, UInt64.ofNat_add, UInt64.add_assoc]

theorem mapped_succ (before : Vpn → Option Leaf) (n : Vpn) (pa : Page) (flags : UInt64)
    (count : Nat) :
    mapped (update before n (some ⟨pa, flags⟩)) (n.val + 1) (pa.plus 1) flags count =
      mapped before n.val pa flags (count + 1) := by
  funext m
  unfold mapped
  by_cases same : m = n
  · rw [same, if_neg fun range => absurd range.1 (Nat.not_succ_le_self _),
      update_self, if_pos ⟨le_rfl, by omega⟩, Nat.sub_self,
      pa.plus_zero]
  · have apart : m.val ≠ n.val := fun equal => same (Fin.ext equal)
    rw [update_of_ne same]
    by_cases range : n.val + 1 ≤ m.val ∧ m.val < n.val + 1 + count
    · rw [if_pos range, if_pos (by omega), pa.plus_plus]
      have shift : 1 + (m.val - (n.val + 1)) = m.val - n.val := by omega
      rw [shift]
    · rw [if_neg range, if_neg (by omega)]

theorem next_toNat (room : a.toNat + 4096 ≤ 2 ^ 38) : (a + 4096).toNat = a.toNat + 4096 := by
  have unit : (4096 : UInt64).toNat = 4096 := rfl
  rw [UInt64.toNat_add, unit]
  omega

theorem mappagesFrom_spec (root pa : Page) (rounds : Nat) (table : Table ram root)
    (fresh : Fresh ram root) (small : perm.toNat < 2 ^ 10) (enough : count < rounds)
    (aligned : a.toNat = 4096 * first) (bound : 4096 * (first + count + 1) ≤ 2 ^ 38)
    (ends : last.toNat = 4096 * (first + count))
    (unmapped : ∀ n : Vpn, first ≤ n.val → n.val < first + (count + 1) → view ram root n = none) :
    ∃ code after, mappagesFrom root last perm rounds a pa.addr ram = .ok (code, after) ∧
      Extends root ram after ∧ (code = 0 ∧ view after root =
        mapped (view ram root) first pa (perm ||| pteV) (count + 1) ∨ code = -1 ∧ ∃ done ≤ count,
        view after root = mapped (view ram root) first pa (perm ||| pteV) done) := by
  -- by induction on the rounds; the page, its frame and the map go along
  induction rounds generalizing count first a pa ram with
  | zero => omega
  | succ rounds induction =>
    have inside : a.toNat < 2 ^ 38 := by omega
    have number : (vpn a inside).val = first := by
      change a.toNat / 4096 = first
      omega
    obtain ⟨pte, between, done, grown, result⟩ :=
      walk_alloc table fresh inside
    unfold mappagesFrom
    rw [done]
    dsimp only
    rcases result with rfl | ⟨nonzero, points⟩
    · rw [if_pos rfl]
      refine ⟨-1, between, rfl, grown.toExtends, .inr ⟨rfl, 0, Nat.zero_le _, ?_⟩⟩
      rw [mapped_zero, grown.view]
    · have empty : decode (between.word pte) = none := by
        rw [← points.view_eq, grown.view]
        exact unmapped _ number.ge (by omega)
      rw [if_neg nonzero, if_neg (not_not.mpr (decode_none_iff.mp empty))]
      have extended := grown.toExtends.trans (Extends.store grown.table
        grown.fresh points (pa2pte pa.addr ||| perm ||| pteV))
      have written := points.view_store grown.table (pa2pte pa.addr ||| perm ||| pteV)
      rw [decode_pte pa small, grown.view] at written
      generalize between.store pte (pa2pte pa.addr ||| perm ||| pteV) = stored at extended written ⊢
      by_cases final : a = last
      · have zero : count = 0 := by
          rw [← final] at ends
          omega
        subst zero
        rw [if_pos final]
        refine ⟨0, _, rfl, extended, .inl ⟨rfl, ?_⟩⟩
        rw [written, ← number, ← mapped_succ, mapped_zero]
      · have positive : count ≠ 0 := by
          rintro rfl
          exact final (UInt64.toNat_inj.mp (by omega))
        obtain ⟨rest, rfl⟩ : ∃ rest, count = rest + 1 :=
          Nat.exists_eq_succ_of_ne_zero positive
        have next := @next_toNat a (by omega)
        have nextAligned : (a + 4096).toNat = 4096 * (first + 1) := by
          omega
        have nextBound : 4096 * (first + 1 + rest + 1) ≤ 2 ^ 38 := by omega
        have nextEnds : last.toNat = 4096 * (first + 1 + rest) := by omega
        have nextUnmapped : ∀ n : Vpn, first + 1 ≤ n.val → n.val < first + 1 + (rest + 1) →
              view stored root n = none := by
          intro n low high
          have apart : n ≠ vpn a inside := by
            rintro rfl
            omega
          rw [written, update_of_ne apart]
          exact unmapped n (by omega) (by omega)
        rw [if_neg final]
        obtain ⟨code, after, finished, more, results⟩ :=
          induction (pa.plus 1) extended.table extended.fresh
            (Nat.lt_of_succ_lt_succ enough) nextAligned nextBound nextEnds nextUnmapped
        refine ⟨code, after, finished, extended.trans more, ?_⟩
        rw [written, ← number, mapped_succ] at results
        rw [← number]
        refine results.imp_right (And.imp_right ?_)
        rintro ⟨some, less, same⟩
        refine ⟨some + 1, Nat.succ_le_succ less, ?_⟩
        rw [same, mapped_succ]

theorem mappages_spec (table : Table ram root) (fresh : Fresh ram root) (pa : Page)
    (small : perm.toNat < 2 ^ 10) (aligned : va.toNat % 4096 = 0) (whole : size.toNat % 4096 = 0)
    (some : size ≠ 0) (bound : va.toNat + size.toNat ≤ 2 ^ 38)
    (unmapped : ∀ n : Vpn, va.toNat / 4096 ≤ n.val → n.val < va.toNat / 4096 + size.toNat / 4096 →
      view ram root n = none) :
    ∃ code after, mappages root va size pa.addr perm ram = .ok (code, after) ∧
      Extends root ram after ∧ (code = 0 ∧ view after root =
        mapped (view ram root) (va.toNat / 4096) pa (perm ||| pteV) (size.toNat / 4096) ∨ code =
        -1 ∧ ∃ done < size.toNat / 4096, view after root =
        mapped (view ram root) (va.toNat / 4096) pa (perm ||| pteV) done) := by
  have unit : (4096 : UInt64).toNat = 4096 := rfl
  have positive : size.toNat ≠ 0 := fun zero =>
    some (UInt64.toNat_inj.mp zero)
  have vaFits : va % 4096 = 0 := UInt64.toNat_inj.mp (by
    rw [UInt64.toNat_mod]
    exact aligned)
  have sizeFits : size % 4096 = 0 := UInt64.toNat_inj.mp (by
    rw [UInt64.toNat_mod]
    exact whole)
  obtain ⟨count, pages⟩ : ∃ count, size.toNat / 4096 = count + 1 :=
    Nat.exists_eq_succ_of_ne_zero (by omega)
  have ends : (va + size - 4096).toNat = 4096 * (va.toNat / 4096 + count) := by
    rw [UInt64.toNat_sub_of_le, UInt64.toNat_add, unit]
    · omega
    · rw [UInt64.le_iff_toNat_le, UInt64.toNat_add, unit]
      omega
  unfold mappages
  rw [if_neg (not_not.mpr vaFits), if_neg (not_not.mpr sizeFits), if_neg some]
  rw [pages] at unmapped ⊢
  have enough : count < 2 ^ 26 + 1 := by omega
  have start : va.toNat = 4096 * (va.toNat / 4096) := by omega
  have room : 4096 * (va.toNat / 4096 + count + 1) ≤ 2 ^ 38 := by omega
  obtain ⟨code, after, done, extended, result⟩ := mappagesFrom_spec root pa
    rounds table fresh small enough start room ends unmapped
  exact ⟨code, after, done, extended, result.imp_right (And.imp_right
    fun ⟨done, less, same⟩ => ⟨done, Nat.lt_succ_of_le less, same⟩)⟩

theorem mapped_one :
    mapped before first pa flags 1 n = if n.val = first then some ⟨pa, flags⟩ else before n := by
  unfold mapped
  by_cases same : n.val = first
  · rw [if_pos (by omega), if_pos same, same, Nat.sub_self, pa.plus_zero]
  · rw [if_neg (by omega), if_neg same]

theorem mappages_one (table : Table ram root) (fresh : Fresh ram root) (pa : Page)
    (small : perm.toNat < 2 ^ 10) (aligned : va.toNat % 4096 = 0)
    (bound : va.toNat + 4096 ≤ 2 ^ 38)
    (unmapped : ∀ n : Vpn, n.val = va.toNat / 4096 → view ram root n = none) :
    ∃ code after, mappages root va 4096 pa.addr perm ram = .ok (code, after) ∧
      Extends root ram after ∧ (∀ n : Vpn, n.val ≠ va.toNat / 4096 → view after root n =
        view ram root n) ∧ (code = 0 → view after root =
        mapped (view ram root) (va.toNat / 4096) pa (perm ||| pteV) 1) := by
  have unit : (4096 : UInt64).toNat / 4096 = 1 := rfl
  obtain ⟨code, after, done, extended, result⟩ := mappages_spec table fresh pa
    small aligned (by decide : (4096 : UInt64).toNat % 4096 = 0) (by decide)
    bound fun n low high => unmapped n (by omega)
  refine ⟨code, after, done, extended, ?_⟩
  rcases result with ⟨_, views⟩ | ⟨failed, some, less, views⟩
  · refine ⟨fun n apart => ?_, fun _ => views⟩
    rw [views]
    exact if_neg (by omega)
  · refine ⟨fun n apart => ?_, fun zero => ?_⟩
    · rw [views]
      exact if_neg (by omega)
    · cases failed.symm.trans zero

theorem mappages_page (table : Table ram root) (fresh : Fresh ram root) (pa : Page)
    (small : perm.toNat < 2 ^ 10) (here : va.toNat = 4096 * n.val)
    (unmapped : view ram root n = none) :
    ∃ code after, mappages root va 4096 pa.addr perm ram = .ok (code, after) ∧
      Extends root ram after ∧ (code = 0 ∧ view after root =
        update (view ram root) n (some ⟨pa, perm ||| pteV⟩) ∨ code = -1 ∧ view after root =
        view ram root) := by
  have inside : n.val < 2 ^ 26 := n.isLt
  have unit : (4096 : UInt64).toNat / 4096 = 1 := rfl
  have number : va.toNat / 4096 = n.val := by omega
  obtain ⟨code, after, done, extended, result⟩ := @mappages_spec ram root va
    perm 4096 table fresh pa small (by omega) (by decide) (by decide)
    (by change _ + 4096 ≤ _; omega) fun m low high => by
      have same : m = n := Fin.ext (by omega)
      rw [same]
      exact unmapped
  refine ⟨code, after, done, extended, ?_⟩
  rw [number, unit] at result
  rcases result with ⟨rfl, views⟩ | ⟨rfl, some, less, views⟩
  · refine .inl ⟨rfl, ?_⟩
    rw [views, ← mapped_succ, mapped_zero]
  · refine .inr ⟨rfl, ?_⟩
    rw [views, Nat.lt_one_iff.mp less, mapped_zero]

theorem Extends.not_node (extended : Extends root ram after) (out : ¬Node ram root page)
    (used : page ∉ ram.free) : ¬Node after root page ∧ page ∉ after.free := by
  obtain ⟨taken, free, nodes⟩ := extended.taken
  rw [free, List.mem_append, not_or] at used
  rw [nodes, not_or]
  exact ⟨⟨out, used.1⟩, used.2⟩

/-! uvmunmap() -/

theorem removed_zero (before : Vpn → Option Leaf) (first : Nat) :
    removed before first 0 = before := by
  funext n
  exact if_neg fun ⟨low, high⟩ => absurd (high.trans_le low) (lt_irrefl _)

theorem removed_succ (before : Vpn → Option Leaf) (n : Vpn) (count : Nat) :
    removed (update before n none) (n.val + 1) count = removed before n.val (count + 1) := by
  funext m
  unfold removed
  by_cases same : m = n
  · rw [same, if_neg fun range => absurd range.1 (Nat.not_succ_le_self _),
      update_self, if_pos ⟨le_rfl, by omega⟩]
  · have apart : m.val ≠ n.val := fun equal => same (Fin.ext equal)
    rw [update_of_ne same]
    by_cases range : n.val + 1 ≤ m.val ∧ m.val < n.val + 1 + count
    · rw [if_pos range, if_pos (by omega)]
    · rw [if_neg range, if_neg (by omega)]

def framesIn (map : Vpn → Option Leaf) (first : Nat) : Nat → List Page
  | 0 => []
  | count + 1 =>
    (if small : first < maxva / pgsize then
      ((map ⟨first, small⟩).map Leaf.frame).toList
    else []) ++ framesIn map (first + 1) count

theorem framesIn_update (map : Vpn → Option Leaf) (n : Vpn) (value : Option Leaf)
    (after : n.val < first) :
    framesIn (update map n value) first count = framesIn map first count := by
  induction count generalizing first with
  | zero => rfl
  | succ count induction =>
    rw [framesIn, framesIn, induction (after.trans (Nat.lt_succ_self _))]
    split
    next small =>
      rw [update_of_ne fun same =>
        after.ne (congrArg Fin.val same).symm]
    next => rfl

theorem framesIn_succ (found : map n = some leaf) (count : Nat) :
    framesIn map n.val (count + 1) = leaf.frame :: framesIn map (n.val + 1) count := by
  rw [framesIn, dif_pos n.isLt, found]
  rfl

/-- Pages have gone from a page table; frames of them may be free now, and no
other memory has changed. -/
structure Shrinks (root : Page) (frames : List Page) (ram after : Ram) : Prop where
  table : Table after root
  pointers : Pointers ram root → Pointers after root
  nodes : ∀ {page}, Node after root page ↔ Node ram root page
  free : after.free = frames.reverse ++ ram.free
  kept : ∀ {a}, (∀ {page}, pgRoundDown a = page.addr →
    ¬Node ram root page ∧ page ∉ frames) → after.word a = ram.word a
  kernelEnd : after.kernelEnd = ram.kernelEnd

namespace Shrinks

theorem nil (table : Table ram root) : Shrinks root [] ram ram :=
  ⟨table, id, Iff.rfl, rfl, fun _ => rfl, rfl⟩

theorem trans (one : Shrinks root frames ram between) (two : Shrinks root more between after) :
    Shrinks root (frames ++ more) ram after where
  table := two.table
  pointers := fun before => two.pointers (one.pointers before)
  nodes := two.nodes.trans one.nodes
  free := by
    rw [two.free, one.free, List.reverse_append, List.append_assoc]
  kept := fun outside => by
    refine (two.kept fun same => ?_).trans (one.kept fun same => ?_)
    all_goals
      have ⟨node, frame⟩ := outside same
      rw [List.mem_append, not_or] at frame
    · exact ⟨fun is => node (one.nodes.mp is), frame.2⟩
    · exact ⟨node, frame.1⟩
  kernelEnd := two.kernelEnd.trans one.kernelEnd

theorem store (table : Table ram root) (points : Points ram root n pte) (value : UInt64) :
    Shrinks root [] ram (ram.store pte value) where
  table := points.table_store table value
  pointers := points.pointers_store table value
  nodes := points.node_store table value
  free := rfl
  kept := fun {a} outside => by
    obtain ⟨leaf, found, rfl⟩ := points
    refine update_of_ne (fun same => ?_) ..
    rw [same] at outside
    exact (outside (leaf.entry_page _)).1 ⟨n.path, le_rfl, found⟩
  kernelEnd := rfl

theorem kfree (table : Table ram root) (apart : ¬Node ram root frame)
    (low : ram.kernelEnd ≤ frame.addr) (high : frame.addr.toNat < phystop) :
    ∃ after, ram.kfree frame = .ok after ∧ Shrinks root [frame] ram after ∧ view after root =
      view ram root ∧ ∀ {n pte}, Points ram root n pte → Points after root n pte := by
  have same : ∀ {page i}, Node ram root page →
      (ram.memset frame 0x0101010101010101).entries page i = ram.entries page i := by
    intro page i node
    refine ram.entries_memset_of_ne _ ?_ i
    rintro rfl
    exact apart node
  have inside : ¬(frame.addr < ram.kernelEnd ∨ phystop ≤ frame.addr.toNat) := by
    rw [not_or, UInt64.not_lt, Nat.not_le]
    exact ⟨low, high⟩
  refine ⟨_, if_neg inside, ⟨⟨(table.outside same).tree,
    (table.outside same).nonzero⟩, Pointers.outside same, node_outside same, rfl, ?_, rfl⟩,
    view_outside same, Points.outside same⟩
  intro a outside
  exact if_neg fun equal => (outside equal).2 List.mem_cons_self

end Shrinks

theorem uvmunmapFrom_spec (root : Page) (doFree : Bool) (rounds : Nat) (table : Table ram root)
    (enough : count < rounds) (aligned : a.toNat = 4096 * first)
    (bound : 4096 * (first + count) ≤ 2 ^ 38) (ends : stop.toNat = 4096 * (first + count))
    (leaves : ∀ n : Vpn, first ≤ n.val → n.val < first + count → ∃ leaf, view ram root n =
      some leaf ∧ leaf.flags ≠ pteV ∧ (doFree = true → ¬Node ram root leaf.frame ∧ ram.kernelEnd ≤
      leaf.frame.addr ∧ leaf.frame.addr.toNat < phystop)) :
    ∃ after, uvmunmapFrom root doFree stop rounds a ram = .ok after ∧
      Shrinks root (if doFree then framesIn (view ram root) first count else []) ram after ∧
      view after root = removed (view ram root) first count := by
  -- by induction on the rounds; the pages before the address are gone
  induction rounds generalizing count first a ram with
  | zero => omega
  | succ rounds induction =>
    unfold uvmunmapFrom
    cases count with
    | zero =>
      have finished : ¬a < stop := by
        rw [UInt64.lt_iff_toNat_lt]
        omega
      rw [if_neg finished, framesIn, ite_self, removed_zero]
      exact ⟨ram, rfl, .nil table, rfl⟩
    | succ rest =>
      have goes : a < stop := by
        rw [UInt64.lt_iff_toNat_lt]
        omega
      have inside : a.toNat < 2 ^ 38 := by omega
      have number : (vpn a inside).val = first := by
        change a.toNat / 4096 = first
        omega
      obtain ⟨leaf, mapsTo, isLeaf, freeable⟩ :=
        leaves (vpn a inside) number.ge (by omega)
      rw [if_pos goes]
      rcases walk_read table inside with
        ⟨_, unmapped⟩ | ⟨pte, done, nonzero, points⟩
      · cases unmapped.symm.trans mapsTo
      have decoded := points.view_eq.symm.trans mapsTo
      have ⟨valid, frame, flags⟩ := decode_some decoded
      rw [done]
      dsimp only
      rw [if_neg nonzero, if_neg valid, flags, if_neg isLeaf, frame]
      -- the frame is free now, or stays
      obtain ⟨between, freed, shrinks, sameView, samePoints⟩ :
          ∃ between, (if doFree then ram.kfree leaf.frame
              else .ok ram) = .ok between ∧ Shrinks root (if doFree then [leaf.frame] else []) ram
              between ∧ view between root = view ram root ∧
            Points between root (vpn a inside) pte := by
        cases doFree with
        | false => exact ⟨ram, rfl, .nil table, rfl, points⟩
        | true =>
          have ⟨apart, low, high⟩ := freeable rfl
          obtain ⟨between, freed, shrinks, view, keeps⟩ :=
            Shrinks.kfree table apart low high
          exact ⟨between, freed, shrinks, view, keeps points⟩
      rw [freed]
      dsimp only
      have cleared := shrinks.trans (Shrinks.store shrinks.table samePoints 0)
      have written := samePoints.view_store shrinks.table 0
      rw [sameView] at written
      generalize between.store pte 0 = stored at cleared written ⊢
      have next := @next_toNat a (by omega)
      have nextAligned : (a + 4096).toNat = 4096 * (first + 1) := by
        omega
      have nextBound : 4096 * (first + 1 + rest) ≤ 2 ^ 38 := by omega
      have nextEnds : stop.toNat = 4096 * (first + 1 + rest) := by omega
      obtain ⟨after, finished, more, result⟩ := induction cleared.table
        (Nat.lt_of_succ_lt_succ enough) nextAligned nextBound nextEnds fun n low high => by
          have apart : n ≠ vpn a inside := by
            rintro rfl
            omega
          obtain ⟨leaf, mapsTo, isLeaf, freeable⟩ :=
            leaves n (by omega) (by omega)
          refine ⟨leaf, ?_, isLeaf, fun frees => ?_⟩
          · rw [written, update_of_ne apart, mapsTo]
          · rw [cleared.nodes, cleared.kernelEnd]
            exact freeable frees
      refine ⟨after, finished, ?_, ?_⟩
      · have whole := cleared.trans more
        rw [written, framesIn_update _ _ _ (by omega)] at whole
        cases doFree with
        | false => exact whole
        | true =>
          rw [if_pos rfl, ← number, framesIn_succ mapsTo]
          rw [← number] at whole
          exact whole
      · rw [result, written, ← number]
        exact removed_succ _ _ _

theorem uvmunmap_spec (table : Table ram root) (doFree : Bool) (aligned : va.toNat % 4096 = 0)
    (bound : va.toNat + 4096 * npages.toNat ≤ 2 ^ 38) (leaves : ∀ n : Vpn, va.toNat / 4096 ≤ n.val →
      n.val < va.toNat / 4096 + npages.toNat → ∃ leaf, view ram root n = some leaf ∧ leaf.flags ≠
      pteV ∧ (doFree = true → ¬Node ram root leaf.frame ∧ ram.kernelEnd ≤ leaf.frame.addr ∧
      leaf.frame.addr.toNat < phystop)) :
    ∃ after, uvmunmap root va npages doFree ram = .ok after ∧
      Shrinks root (if doFree then framesIn (view ram root) (va.toNat / 4096) npages.toNat else [])
      ram after ∧ view after root = removed (view ram root) (va.toNat / 4096) npages.toNat := by
  have unit : (4096 : UInt64).toNat = 4096 := rfl
  have vaFits : va % 4096 = 0 := UInt64.toNat_inj.mp (by
    rw [UInt64.toNat_mod]
    exact aligned)
  have ends : (va + npages * 4096).toNat = 4096 * (va.toNat / 4096 + npages.toNat) := by
    rw [UInt64.toNat_add, UInt64.toNat_mul, unit]
    omega
  have enough : npages.toNat < 2 ^ 26 + 1 := by omega
  have start : va.toNat = 4096 * (va.toNat / 4096) := by omega
  have room : 4096 * (va.toNat / 4096 + npages.toNat) ≤ 2 ^ 38 := by omega
  unfold uvmunmap
  rw [if_neg (not_not.mpr vaFits)]
  exact uvmunmapFrom_spec root doFree rounds table enough start room ends leaves

end

end Xv6Lottery.Vm
