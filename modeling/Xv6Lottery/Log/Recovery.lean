import Xv6Lottery.Log.Commit

/-! Crash atomicity.  Between any two disk writes the disk represents one
content of the home blocks: a block listed in the on-disk header stands for
its log slot, every other block for itself. -/

namespace Xv6Lottery.Log

open DiskProgram Function

/-- The disk stands for `content` through the on-disk header. -/
structure Represents (log : Log) (header : LogHeader) (content disk : Disk) : Prop where
  head : LogHeader.load (disk log.start) = header
  room : header.length ≤ log.size - 1
  outside : ∀ block ∈ header, ¬ log.InArea block
  slots : ∀ tail (bound : tail < header.length), disk (log.start + tail + 1) = content header[tail]
  rest : ∀ block, ¬ log.InArea block → block ∉ header → disk block = content block

def Recoverable (log : Log) (content disk : Disk) : Prop :=
  ∃ header, log.Represents header content disk

theorem start_inArea (log : Log) : log.InArea log.start := by
  simp [InArea]

theorem slot_inArea (log : Log) (bound : tail < log.size - 1) :
    log.InArea (log.start + tail + 1) := by
  simp only [InArea]
  omega

theorem home_eq (bound : tail < header.length) : home header tail = header[tail] := by
  simp [home, bound]

theorem Represents.write_home {log : Log} (represents : log.Represents header content disk)
    (member : block ∈ header) (contents : Block) :
    log.Represents header content (update disk block contents) := by
  have outside := represents.outside block member
  have notStart : log.start ≠ block := fun same =>
    outside (same ▸ log.start_inArea)
  refine ⟨?_, represents.room, represents.outside, ?_, ?_⟩
  · rw [update_of_ne notStart]
    exact represents.head
  · intro tail bound
    have notSlot : log.start + tail + 1 ≠ block := fun same =>
      outside (same ▸ log.slot_inArea (Nat.lt_of_lt_of_le bound represents.room))
    rw [update_of_ne notSlot]
    exact represents.slots tail bound
  · intro other away absent
    have different : other ≠ block := fun same => absent (same ▸ member)
    rw [update_of_ne different]
    exact represents.rest other away absent

theorem Represents.write_slot {log : Log} (represents : log.Represents [] content disk)
    (bound : tail < log.size - 1) (contents : Block) :
    log.Represents [] content (update disk (log.start + tail + 1) contents) := by
  refine ⟨?_, represents.room, represents.outside, ?_, ?_⟩
  · rw [update_of_ne (by omega)]
    exact represents.head
  · intro tail bound
    simp at bound
  · intro other away absent
    have different : other ≠ log.start + tail + 1 := fun same =>
      away (same ▸ log.slot_inArea bound)
    rw [update_of_ne different]
    exact represents.rest other away absent

theorem Represents.clear {log : Log} (represents : log.Represents header content disk)
    (installed : ∀ block ∈ header, disk block = content block) (buf : Block) :
    log.Represents [] content (update disk log.start (LogHeader.store [] buf)) := by
  refine ⟨?_, Nat.zero_le _, by simp, by simp, ?_⟩
  · rw [update_self]
    exact LogHeader.load_store [] buf (Nat.zero_le _) (by simp)
  · intro other away _
    have different : other ≠ log.start := fun same =>
      away (same ▸ log.start_inArea)
    rw [update_of_ne different]
    by_cases member : other ∈ header
    · exact installed other member
    · exact represents.rest other away member

/-- The commit point: writing the header switches the represented content. -/
theorem Represents.publish {log : Log} (represents : log.Represents [] old disk)
    (short : header.length ≤ logSize) (room : header.length ≤ log.size - 1)
    (numbers : ∀ block ∈ header, block < 2 ^ 32) (outside : ∀ block ∈ header, ¬ log.InArea block)
    (slots : ∀ tail (bound : tail < header.length), disk (log.start + tail + 1) = new header[tail])
    (unlisted : ∀ block, block ∉ header → new block = old block) (buf : Block) :
    log.Represents header new (update disk log.start (header.store buf)) := by
  refine ⟨?_, room, outside, ?_, ?_⟩
  · rw [update_self]
    exact LogHeader.load_store header buf short numbers
  · intro tail bound
    rw [update_of_ne (by omega)]
    exact slots tail bound
  · intro other away absent
    have different : other ≠ log.start := fun same =>
      away (same ▸ log.start_inArea)
    rw [update_of_ne different, unlisted other absent]
    exact represents.rest other away (by simp)

/-! The programs of `log.c`, each with the condition that holds between its
disk writes. -/

def Consistent (log : Log) (initial : Disk) (ledger : Ledger) (device : Machine Nat Block) : Prop :=
  device.Coherent ∧ log.Recoverable (ledger.durable initial) device.disk

abbrev Spec (log : Log) (initial : Disk) (program : BlockProg value)
    (post : value → Ledger → Machine Nat Block → Prop) : Ledger → Machine Nat Block → Prop :=
  Prog.wp (Ledger.observeWrite log) (log.Consistent initial) program post

def Pinned (blocks : List Nat) (device : Machine Nat Block) : Prop :=
  ∀ block, device.pins block = blocks.count block

theorem observeWrite_other (different : block ≠ log.start) (ledger : Ledger) (contents : Block) :
    ledger.observeWrite log block contents = ledger := by
  simp [Ledger.observeWrite, different]

theorem observeWrite_clear (log : Log) (ledger : Ledger) (buf : Block) :
    ledger.observeWrite log log.start (LogHeader.store [] buf) = ledger := by
  have zero := LogHeader.count_store [] buf (Nat.zero_le _)
  simp [Ledger.observeWrite, zero]

theorem observeWrite_commit (log : Log) (ledger : Ledger) {header : LogHeader} (buf : Block)
    (nonempty : 0 < header.length) (short : header.length ≤ logSize) :
    ledger.observeWrite log log.start (header.store buf) =
      ⟨ledger.committed ++ [ledger.pending], []⟩ := by
  have positive := LogHeader.count_store header buf short
  simp [Ledger.observeWrite, positive, List.length_pos_iff.mp nonempty]

/-- Which of the pins of `header` are left when `install_trans` is at `tail`. -/
def pinsLeft (header : LogHeader) (recovering : Bool) (tail : Nat) : List Nat :=
  if recovering then [] else header.drop tail

structure Installing (log : Log) (initial : Disk) (header : LogHeader)
    (recovering : Bool) (ledger₀ : Ledger) (tail : Nat) (ledger : Ledger)
    (device : Machine Nat Block) : Prop where
  ledger_eq : ledger = ledger₀
  coherent : device.Coherent
  represents : log.Represents header (ledger₀.durable initial) device.disk
  installed : ∀ position (bound : position < header.length), position < tail →
      device.disk header[position] = ledger₀.durable initial header[position]
  pinned : Pinned (pinsLeft header recovering tail) device

theorem Installing.consistent {log : Log}
    (holds : log.Installing initial header recovering ledger₀ tail ledger device) :
    log.Consistent initial ledger device := by
  rw [holds.ledger_eq]
  exact ⟨holds.coherent, header, holds.represents⟩

theorem pinned_drop {header : LogHeader} (bound : tail < header.length)
    (pinned : Pinned (header.drop tail) device) :
    Pinned (header.drop (tail + 1)) (device.unpin header[tail]) := by
  intro block
  have counted := pinned block
  rw [List.drop_eq_getElem_cons bound, List.count_cons] at counted
  by_cases same : header[tail] = block
  · subst same
    simp [Machine.unpin, counted]
  · simpa [Machine.unpin, update_of_ne (Ne.symm same), same] using counted

theorem Installing.slot {log : Log}
    (holds : log.Installing initial header recovering ledger₀ tail ledger device)
    (bound : tail < header.length) :
    device.buf (log.start + tail + 1) = ledger₀.durable initial header[tail] := by
  have inArea : log.InArea (log.start + tail + 1) :=
    log.slot_inArea (Nat.lt_of_lt_of_le bound holds.represents.room)
  have unlisted : log.start + tail + 1 ∉ pinsLeft header recovering tail := by
    intro member
    cases recovering with
    | true => simp [pinsLeft] at member
    | false =>
      exact holds.represents.outside _ (List.mem_of_mem_drop member) inArea
  rw [holds.coherent _ ((holds.pinned _).trans (List.count_eq_zero.mpr unlisted))]
  exact holds.represents.slots tail bound

theorem Installing.write {log : Log}
    (holds : log.Installing initial header recovering ledger₀ tail ledger device)
    (bound : tail < header.length) (copied : contents = ledger₀.durable initial header[tail])
    (position : Nat) (positionBound : position < header.length) (before : position < tail + 1) :
    (device.write header[tail] contents).disk header[position] =
      ledger₀.durable initial header[position] := by
  by_cases same : header[position] = header[tail]
  · rw [same]
    simp [Machine.write, copied]
  · have earlier : position < tail := by
      have different : position ≠ tail := fun equal => same (by simp [equal])
      omega
    simp only [Machine.write, update_of_ne same]
    exact holds.installed position positionBound earlier

theorem installTrans_spec {log : Log}
    (holds : log.Installing initial header recovering ledger 0 ledger device) :
    log.Spec initial (log.installTrans header recovering)
      (fun _ => log.Installing initial header recovering ledger header.length) ledger device := by
  apply Prog.wp_upTo (log.Installing initial header recovering ledger)
    (fun _ _ _ holds => holds.consistent) _ holds
  intro tail bound seen device holds
  have consistent := holds.consistent
  have member : header[tail] ∈ header := List.getElem_mem bound
  have notStart : header[tail] ≠ log.start := fun same =>
    holds.represents.outside _ member (same ▸ log.start_inArea)
  apply Prog.wp_bind
  apply Prog.wp_bread consistent
  apply Prog.wp_bind
  apply Prog.wp_bread consistent
  rw [home_eq bound]
  apply Prog.wp_bind
  have copied := holds.slot bound
  have installed := fun position positionBound before =>
    holds.write bound copied position positionBound before
  have represents := holds.represents.write_home member (device.buf (log.start + tail + 1))
  have written : log.Consistent initial seen
      (device.write header[tail] (device.buf (log.start + tail + 1))) := by
    rw [holds.ledger_eq]
    exact ⟨holds.coherent.write _ _, header, represents⟩
  apply Prog.wp_bwrite consistent
  · rw [observeWrite_other notStart]
    exact written
  · rw [observeWrite_other notStart]
    cases recovering with
    | true =>
      exact Prog.wp_pure written ⟨holds.ledger_eq,
        holds.coherent.write _ _, represents, installed, holds.pinned⟩
    | false =>
      have coherent := holds.coherent.write_unpin header[tail] (device.buf (log.start + tail + 1))
      refine Prog.wp_bunpin written ?_ ?_
      · rw [holds.ledger_eq]
        exact ⟨coherent, header, represents⟩
      · exact ⟨holds.ledger_eq, coherent, represents, installed, pinned_drop bound holds.pinned⟩

/-- Nothing is being collected or installed: every home block is on disk. -/
structure Idle (log : Log) (initial : Disk) (ledger₀ ledger : Ledger)
    (device : Machine Nat Block) : Prop where
  ledger_eq : ledger = ledger₀
  coherent : device.Coherent
  represents : log.Represents [] (ledger₀.durable initial) device.disk
  pinned : Pinned [] device

theorem Idle.consistent {log : Log} (idle : log.Idle initial ledger₀ ledger device) :
    log.Consistent initial ledger device := by
  rw [idle.ledger_eq]
  exact ⟨idle.coherent, [], idle.represents⟩

theorem clearHead_spec {log : Log}
    (holds : log.Installing initial header recovering ledger₀ header.length ledger device) :
    log.Spec initial (log.writeHead []) (fun _ => log.Idle initial ledger₀) ledger device := by
  have installed : ∀ block ∈ header, device.disk block = ledger₀.durable initial block := by
    intro block member
    obtain ⟨position, bound, rfl⟩ := List.getElem_of_mem member
    exact holds.installed position bound bound
  have idle : log.Idle initial ledger₀ ledger (device.write log.start
        (LogHeader.store [] (device.buf log.start))) := by
    refine ⟨holds.ledger_eq, holds.coherent.write _ _, holds.represents.clear installed _, ?_⟩
    intro block
    rw [show (device.write log.start _).pins block = device.pins block by rfl,
      holds.pinned block]
    cases recovering <;> simp [pinsLeft]
  apply Prog.wp_bind
  apply Prog.wp_bread holds.consistent
  apply Prog.wp_bwrite holds.consistent
  · rw [observeWrite_clear]
    exact idle.consistent
  · rw [observeWrite_clear]
    exact idle

theorem recoverFromLog_spec {log : Log}
    (recoverable : log.Recoverable (ledger.durable initial) disk) :
    log.Spec initial log.recoverFromLog (fun _ => log.Idle initial ledger) ledger (.powerOn disk)
      := by
  obtain ⟨header, represents⟩ := recoverable
  have consistent : log.Consistent initial ledger (.powerOn disk) :=
    ⟨Machine.powerOn_coherent disk, header, represents⟩
  apply Prog.wp_bind
  apply Prog.wp_bind
  apply Prog.wp_bread consistent
  apply Prog.wp_pure consistent
  rw [show LogHeader.load ((Machine.powerOn disk).buf log.start) = header from represents.head]
  apply Prog.wp_bind
  refine Prog.wp_mono ?_ (installTrans_spec ⟨rfl,
    Machine.powerOn_coherent disk, represents, ?_, ?_⟩)
  · intro _ ledger' device holds
    exact clearHead_spec holds
  · intro position _ before
    exact absurd before (Nat.not_lt_zero _)
  · intro block
    simp [pinsLeft, Machine.powerOn]

/-! A transaction being collected: its updates live in pinned buffers only. -/

def latest (initial : Disk) (ledger : Ledger) : Disk :=
  Transaction.apply (ledger.durable initial) ledger.pending

structure Collecting (log : Log) (initial : Disk) (header : LogHeader)
    (ledger : Ledger) (device : Machine Nat Block) : Prop where
  coherent : device.Coherent
  represents : log.Represents [] (ledger.durable initial) device.disk
  short : header.length ≤ logSize
  room : header.length ≤ log.size - 1
  numbers : ∀ block ∈ header, block < 2 ^ 32
  outside : ∀ block ∈ header, ¬ log.InArea block
  buffered : ∀ block ∈ header, device.buf block = latest initial ledger block
  unlisted : ∀ block, block ∉ header → latest initial ledger block = ledger.durable initial block
  pinned : Pinned header device

theorem Collecting.consistent {log : Log}
    (collecting : log.Collecting initial header ledger device) :
    log.Consistent initial ledger device :=
  ⟨collecting.coherent, [], collecting.represents⟩

theorem Idle.collecting {log : Log} (idle : log.Idle initial ledger₀ ledger device)
    (settled : ledger₀.pending = []) : log.Collecting initial [] ledger device := by
  rw [idle.ledger_eq]
  refine ⟨idle.coherent, idle.represents, Nat.zero_le _, Nat.zero_le _,
    by simp, by simp, by simp, ?_, idle.pinned⟩
  intro block _
  simp [latest, settled, Transaction.apply]

theorem latest_update (initial : Disk) (ledger : Ledger) (block : Nat) (contents : Block) :
    latest initial { ledger with pending := ledger.pending ++ [(block, contents)] } =
      update (latest initial ledger) block contents := by
  simp [latest, Transaction.apply, Ledger.durable]

theorem mem_absorb : other ∈ absorb header block ↔ other ∈ header ∨ other = block := by
  unfold absorb
  split
  · rename_i member
    constructor
    · exact .inl
    · rintro (listed | rfl)
      · exact listed
      · exact member
  · simp

theorem pinned_absorb (pinned : Pinned header device) (block : Nat) (contents : Block) :
    Pinned (absorb header block) (LogSystem.pinNew (device.modify block contents) header block)
      := by
  intro other
  unfold absorb LogSystem.pinNew
  split
  · exact pinned other
  · by_cases same : other = block
    · subst same
      simp [Machine.pin, Machine.modify, pinned other]
    · simp [Machine.pin, Machine.modify, update_of_ne same, pinned other, Ne.symm same]

@[simp] theorem pinNew_buf (device : Machine Nat Block) (header : LogHeader)
    (block : Nat) : (LogSystem.pinNew device header block).buf = device.buf := by
  unfold LogSystem.pinNew
  split <;> rfl

@[simp] theorem pinNew_disk (device : Machine Nat Block) (header : LogHeader) (block : Nat) :
    (LogSystem.pinNew device header block).disk = device.disk := by
  unfold LogSystem.pinNew
  split <;> rfl

theorem Collecting.logWrite {log : Log}
    (collecting : log.Collecting initial header ledger device)
     (outside : ¬ log.InArea block) (number : block < 2 ^ 32)
    (room : ¬ log.TooBig header) (contents : Block) : log.Collecting initial (absorb header block)
      { ledger with pending := ledger.pending ++ [(block, contents)] }
      (LogSystem.pinNew (device.modify block contents) header block) := by
  have pinned := pinned_absorb collecting.pinned block contents
  have length : (absorb header block).length ≤ header.length + 1 := by
    unfold absorb
    split <;> simp
  simp only [TooBig, not_or, Nat.not_le] at room
  constructor
  · intro other unpinned
    rw [pinned other, List.count_eq_zero, mem_absorb, not_or] at unpinned
    simp only [pinNew_buf, pinNew_disk, Machine.modify, update_of_ne unpinned.2]
    apply collecting.coherent
    rw [collecting.pinned other]
    exact List.count_eq_zero.mpr unpinned.1
  · rw [pinNew_disk]
    exact collecting.represents
  · omega
  · omega
  · intro other listed
    rcases mem_absorb.mp listed with listed | rfl
    · exact collecting.numbers other listed
    · exact number
  · intro other listed
    rcases mem_absorb.mp listed with listed | rfl
    · exact collecting.outside other listed
    · exact outside
  · intro other listed
    rw [latest_update, pinNew_buf]
    by_cases same : other = block
    · subst same
      simp [Machine.modify]
    · have earlier := (mem_absorb.mp listed).resolve_right same
      simp only [Machine.modify, update_of_ne same]
      exact collecting.buffered other earlier
  · intro other absent
    rw [mem_absorb, not_or] at absent
    rw [latest_update, update_of_ne absent.2]
    exact collecting.unlisted other absent.1
  · exact pinned

structure WritingLog (log : Log) (initial : Disk) (header : LogHeader)
    (ledger₀ : Ledger) (tail : Nat) (ledger : Ledger) (device : Machine Nat Block) : Prop where
  ledger_eq : ledger = ledger₀
  collecting : log.Collecting initial header ledger₀ device
  slots : ∀ position (bound : position < header.length), position < tail →
    device.disk (log.start + position + 1) = latest initial ledger₀ header[position]

theorem WritingLog.consistent {log : Log}
    (holds : log.WritingLog initial header ledger₀ tail ledger device) :
    log.Consistent initial ledger device := by
  rw [holds.ledger_eq]
  exact holds.collecting.consistent

theorem Collecting.write_slot {log : Log}
    (collecting : log.Collecting initial header ledger device) (bound : tail < header.length)
    (contents : Block) :
    log.Collecting initial header ledger (device.write (log.start + tail + 1) contents) := by
  have inside : tail < log.size - 1 :=
    Nat.lt_of_lt_of_le bound collecting.room
  refine ⟨collecting.coherent.write _ _,
    collecting.represents.write_slot inside _, collecting.short,
    collecting.room, collecting.numbers, collecting.outside, ?_,
    collecting.unlisted, collecting.pinned⟩
  intro block listed
  have different : block ≠ log.start + tail + 1 := fun same =>
    collecting.outside block listed (same ▸ log.slot_inArea inside)
  simp only [Machine.write, update_of_ne different]
  exact collecting.buffered block listed

theorem writeLog_spec {log : Log} (collecting : log.Collecting initial header ledger device) :
    log.Spec initial (log.writeLog header) (fun _ => log.WritingLog initial header ledger
        header.length) ledger device := by
  apply Prog.wp_upTo (log.WritingLog initial header ledger) (fun _ _ _ holds => holds.consistent)
  · intro tail bound seen device holds
    have consistent := holds.consistent
    apply Prog.wp_bind
    apply Prog.wp_bread consistent
    apply Prog.wp_bind
    apply Prog.wp_bread consistent
    rw [home_eq bound, holds.collecting.buffered _ (List.getElem_mem bound)]
    have next : log.WritingLog initial header ledger (tail + 1) seen
        (device.write (log.start + tail + 1) (latest initial ledger header[tail])) := by
      refine ⟨holds.ledger_eq, holds.collecting.write_slot bound _, ?_⟩
      intro position positionBound before
      by_cases same : position = tail
      · subst same
        simp [Machine.write]
      · have different : log.start + position + 1 ≠ log.start + tail + 1 := by
          omega
        simp only [Machine.write, update_of_ne different]
        exact holds.slots position positionBound (by omega)
    apply Prog.wp_bwrite consistent
    · rw [observeWrite_other (by omega)]
      exact next.consistent
    · rw [observeWrite_other (by omega)]
      exact next
  · refine ⟨rfl, collecting, ?_⟩
    intro position _ before
    exact absurd before (Nat.not_lt_zero _)

theorem durable_commit (initial : Disk) (ledger : Ledger) :
    Ledger.durable initial ⟨ledger.committed ++ [ledger.pending], []⟩ = latest initial ledger := by
  simp [Ledger.durable, latest]

/-- `write_head()` with `n > 0`: the point at which the transaction commits. -/
theorem commitHead_spec {log : Log} (nonempty : 0 < header.length)
    (holds : log.WritingLog initial header ledger₀ header.length ledger device) :
    log.Spec initial (log.writeHead header) (fun _ => log.Installing initial header false
        ⟨ledger₀.committed ++ [ledger₀.pending], []⟩ 0) ledger device := by
  have collecting := holds.collecting
  have represents := collecting.represents.publish collecting.short
    collecting.room collecting.numbers collecting.outside
    (fun tail bound => holds.slots tail bound bound) collecting.unlisted (device.buf log.start)
  rw [← durable_commit] at represents
  have installing : log.Installing initial header false
      ⟨ledger₀.committed ++ [ledger₀.pending], []⟩ 0 ⟨ledger₀.committed ++ [ledger₀.pending], []⟩
      (device.write log.start (header.store (device.buf log.start))) := by
    refine ⟨rfl, collecting.coherent.write _ _, represents, ?_, ?_⟩
    · intro position _ before
      exact absurd before (Nat.not_lt_zero _)
    · exact collecting.pinned
  apply Prog.wp_bind
  apply Prog.wp_bread holds.consistent
  have observed := observeWrite_commit log ledger₀ (device.buf log.start) nonempty collecting.short
  rw [← holds.ledger_eq] at observed installing
  apply Prog.wp_bwrite holds.consistent
  · rw [observed]
    exact installing.consistent
  · rw [observed, ← holds.ledger_eq]
    exact installing

theorem commit_spec {log : Log} (collecting : log.Collecting initial header ledger device) :
    log.Spec initial (log.commit header) (fun _ => log.Collecting initial []) ledger device := by
  unfold commit
  split
  · rename_i nonempty
    apply Prog.wp_bind
    refine Prog.wp_mono ?_ (writeLog_spec collecting)
    intro _ seen device holds
    apply Prog.wp_bind
    refine Prog.wp_mono ?_ (commitHead_spec nonempty holds)
    intro _ seen device holds
    apply Prog.wp_bind
    obtain rfl := holds.ledger_eq
    refine Prog.wp_mono ?_ (installTrans_spec holds)
    intro _ seen device holds
    refine Prog.wp_mono ?_ (clearHead_spec holds)
    intro _ seen device idle
    exact idle.collecting rfl
  · rename_i empty
    have nothing : header = [] :=
      List.length_eq_zero_iff.mp (Nat.eq_zero_of_not_pos empty)
    subst nothing
    exact Prog.wp_pure collecting.consistent collecting

end Xv6Lottery.Log
