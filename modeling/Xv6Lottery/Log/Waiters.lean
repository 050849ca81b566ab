import Xv6Lottery.Lib.Tally
import Xv6Lottery.Lib.Transition
import Xv6Lottery.Log.Group

namespace Xv6Lottery

open Function

/-! begin_op(), log_write() and end_op() lock by lock: sleep() gives up
log.lock before the process is SLEEPING, and wakeup() goes through the
processes one by one. -/

inductive LogPoint (Process : Type) where
  | outside
  /-- In begin_op(), with log.lock, before the tests. -/
  | testing
  /-- In sleep(), with log.lock and p->lock. -/
  | falling
  /-- In sleep(), with p->lock, on the way to sched(). -/
  | dozing
  | sleeping
  /-- In sleep(), before it takes log.lock again. -/
  | woken
  | inside
  /-- In end_op() with log.lock, in wakeup() of the processes left. -/
  | waking (rest : List Process)
  | committing
  | committed
  /-- After commit(), with log.lock, in wakeup() of the processes left. -/
  | finishing (rest : List Process)
  deriving DecidableEq

namespace LogPoint

variable {Process : Type}

def Locked : LogPoint Process → Prop
  | .testing | .falling | .waking _ | .finishing _ => True
  | _ => False

def Waits : LogPoint Process → Prop
  | .falling | .dozing | .sleeping => True
  | _ => False

def Commits : LogPoint Process → Prop
  | .committing | .committed => True
  | _ => False

def toWake : LogPoint Process → List Process
  | .waking rest | .finishing rest => rest
  | _ => []

def ops : LogPoint Process → Nat
  | .inside => 1
  | _ => 0

end LogPoint

structure LogQueue (Process : Type) where
  header : LogHeader
  outstanding : Nat
  committing : Bool
  lock : Option Process
  point : Process → LogPoint Process
  panic : Option LogPanic

inductive QueueEvent (Process : Type) where
  /-- acquire(&log.lock) in begin_op(), or at the end of sleep(). -/
  | acquire (self : Process)
  | mustWait (self : Process)
  | enter (self : Process)
  /-- release(&log.lock) in sleep(). -/
  | doze (self : Process)
  /-- sched() in sleep(). -/
  | sched (self : Process)
  /-- kill() of a sleeping process. -/
  | kill (victim : Process)
  | logWrite (self : Process) (block : Nat)
  | endOp (self : Process)
  /-- One turn of the loop of wakeup(). -/
  | wake (self slot : Process)
  | wakeupDone (self : Process)
  | commit (self : Process)
  | finish (self : Process)

namespace LogQueue

variable {Process : Type} [DecidableEq Process]

def initial : LogQueue Process where
  header := []
  outstanding := 0
  committing := false
  lock := none
  point := fun _ => .outside
  panic := none

def setPoint (queue : LogQueue Process) (self : Process)
    (point : LogPoint Process) : LogQueue Process :=
  { queue with point := update queue.point self point }

def Full (queue : LogQueue Process) : Prop :=
  logSize < queue.header.length + (queue.outstanding + 1) * maxOpBlocks

instance (queue : LogQueue Process) : Decidable queue.Full :=
  inferInstanceAs (Decidable (_ < _))

def logWrite (log : Log) (queue : LogQueue Process) (block : Nat) : LogQueue Process :=
  if log.TooBig queue.header then
    { queue with panic := some .tooBig }
  else if queue.outstanding < 1 then
    { queue with panic := some .outsideTransaction }
  else
    { queue with header := Log.absorb queue.header block }

/-- end_op() from acquire() on, to the release() or into wakeup(). -/
def endOp (procs : List Process) (queue : LogQueue Process) (self : Process) : LogQueue Process :=
  let left := { queue with outstanding := queue.outstanding - 1 }
  if queue.committing then
    { left with panic := some .logCommitting }
  else if left.outstanding = 0 then
    { left with committing := true }.setPoint self .committing
  else
    { left with lock := some self }.setPoint self (.waking procs)

def visit (queue : LogQueue Process) (slot : Process) : LogQueue Process :=
  if queue.point slot = .sleeping then queue.setPoint slot .woken else queue

def advance : LogPoint Process → List Process → LogPoint Process
  | .waking _, rest => .waking rest
  | .finishing _, rest => .finishing rest
  | point, _ => point

variable (log : Log) (procs : List Process)

inductive Step : LogQueue Process → QueueEvent Process → LogQueue Process → Prop
  | acquire : queue.panic = none → queue.lock = none →
      queue.point self = .outside ∨ queue.point self = .woken → Step queue (.acquire self)
        ({ queue with lock := some self }.setPoint self .testing)
  | mustWait : queue.panic = none → queue.point self = .testing →
      queue.committing = true ∨ queue.Full →
      Step queue (.mustWait self) (queue.setPoint self .falling)
  | enter : queue.panic = none → queue.point self = .testing →
      queue.committing = false → ¬queue.Full → Step queue (.enter self)
        ({ queue with
            outstanding := queue.outstanding + 1
            lock := none }.setPoint self .inside)
  | doze : queue.panic = none → queue.point self = .falling → Step queue (.doze self)
        ({ queue with lock := none }.setPoint self .dozing)
  | sched : queue.panic = none → queue.point self = .dozing →
      Step queue (.sched self) (queue.setPoint self .sleeping)
  | kill : queue.panic = none → queue.point victim = .sleeping →
      Step queue (.kill victim) (queue.setPoint victim .woken)
  -- log_write() does not test that the caller is in a transaction.
  | logWrite : queue.panic = none → queue.lock = none →
      queue.point self = .inside ∨ queue.point self = .outside →
      Step queue (.logWrite self block) (queue.logWrite log block)
  | endOp : queue.panic = none → queue.lock = none → queue.point self = .inside →
      Step queue (.endOp self) (queue.endOp procs self)
  -- wakeup() waits for the p->lock of a process that is in sleep().
  | wake : queue.panic = none → (queue.point self).toWake = slot :: rest →
      queue.point slot ≠ .falling → queue.point slot ≠ .dozing → Step queue (.wake self slot)
        ((queue.visit slot).setPoint self (advance (queue.point self) rest))
  | wakeupDone : queue.panic = none →
      queue.point self = .waking [] ∨ queue.point self = .finishing [] →
      Step queue (.wakeupDone self) ({ queue with lock := none }.setPoint self .outside)
  -- commit() runs without log.lock; of `log` it changes only `lh.n`.
  | commit : queue.panic = none → queue.point self = .committing → Step queue (.commit self)
        ({ queue with header := [] }.setPoint self .committed)
  | finish : queue.panic = none → queue.lock = none → queue.point self = .committed →
      Step queue (.finish self) ({ queue with committing := false, lock := some self }.setPoint self
          (.finishing procs))

/-! The invariant. -/

variable [Fintype Process]

structure Sound (queue : LogQueue Process) : Prop where
  locked : ∀ process, (queue.point process).Locked ↔ queue.lock = some process
  counted : ∑ process, (queue.point process).ops = queue.outstanding
  commits : ∀ process, (queue.point process).Commits →
    queue.committing = true ∧ ∀ other, (queue.point other).Commits → other = process
  committing : queue.committing = true →
    queue.outstanding = 0 ∧ ∃ process, (queue.point process).Commits
  committed : ∀ process, queue.point process = .committed → queue.header = []
  empty : queue.outstanding = 0 → queue.committing = false → queue.header = []
  distinct : queue.header.Nodup
  /-- Every process that waits has a reason to, or is about to be woken. -/
  waits : ∀ process, (queue.point process).Waits → queue.committing = true ∨ queue.Full ∨
      ∃ waker, process ∈ (queue.point waker).toWake

variable {log procs} {queue next : LogQueue Process} {self : Process} {point : LogPoint Process}

omit [Fintype Process] in
theorem setPoint_self (queue : LogQueue Process) (self : Process) (point : LogPoint Process) :
    (queue.setPoint self point).point self = point := update_self ..

omit [Fintype Process] in
theorem setPoint_other (queue : LogQueue Process) (differs : other ≠ self)
    (point : LogPoint Process) : (queue.setPoint self point).point other = queue.point other :=
  update_of_ne differs ..

omit [DecidableEq Process] in
theorem initial_sound : (initial : LogQueue Process).Sound where
  locked _ := ⟨nofun, nofun⟩
  counted := Finset.sum_eq_zero fun _ _ => rfl
  commits _ := nofun
  committing := nofun
  committed _ := nofun
  empty _ _ := rfl
  distinct := .nil
  waits _ := nofun

namespace Sound

variable (sound : queue.Sound)

include sound

omit [DecidableEq Process] in
theorem inside_pos (inside : queue.point self = .inside) : 0 < queue.outstanding := by
  rw [← sound.counted]
  have one : (queue.point self).ops = 1 := by rw [inside]; rfl
  have bound : (queue.point self).ops ≤ ∑ process, (queue.point process).ops :=
    Finset.single_le_sum (f := fun process => (queue.point process).ops)
      (fun _ _ => Nat.zero_le _) (Finset.mem_univ self)
  omega

omit [DecidableEq Process] in
theorem not_committing (inside : queue.point self = .inside) : queue.committing = false := by
  by_contra commits
  have none := (sound.committing (by simpa using commits)).1
  have some := sound.inside_pos inside
  omega

section

variable (moved : next.point = update queue.point self point)

include moved

theorem locked_move
    (own : point.Locked ↔ next.lock = some self)
    (others : ∀ other, other ≠ self → (queue.lock = some other ↔ next.lock = some other))
    (process : Process) : (next.point process).Locked ↔ next.lock = some process := by
  rw [moved]
  by_cases same : process = self
  · rw [same, update_self]
    exact own
  · rw [update_of_ne same, sound.locked, others process same]

theorem counted_move
    (outstanding : next.outstanding + (queue.point self).ops = queue.outstanding + point.ops) :
    ∑ process, (next.point process).ops = next.outstanding := by
  have total := Tally.sum_update Finset.univ LogPoint.ops queue.point (Finset.mem_univ self) point
  rw [← moved, sound.counted] at total
  omega

/-- A process moves, into log.c or towards sleep() or out of it, and the log
stays as it is. -/
theorem move
    (header : next.header = queue.header) (outstanding : next.outstanding = queue.outstanding)
    (committing : next.committing = queue.committing) (own : point.Locked ↔ next.lock = some self)
    (others : ∀ other, other ≠ self → (queue.lock = some other ↔ next.lock = some other))
    (ops : (queue.point self).ops = point.ops) (before : ¬(queue.point self).Commits)
    (after : ¬point.Commits) (wakes : (queue.point self).toWake = [])
    (waits : point.Waits → queue.committing = true ∨ queue.Full ∨ (queue.point self).Waits) :
    next.Sound := by
  have full : next.Full ↔ queue.Full := by
    unfold Full
    rw [header, outstanding]
  have elsewhere : ∀ {process}, process ≠ self → next.point process = queue.point process := by
    intro process differs
    rw [moved, update_of_ne differs]
  have here : next.point self = point := by
    rw [moved, update_self]
  have commits : ∀ {process}, (next.point process).Commits ↔ (queue.point process).Commits := by
    intro process
    by_cases same : process = self
    · rw [same, here]
      exact iff_of_false after before
    · rw [elsewhere same]
  refine {
    locked := sound.locked_move moved own others
    counted := sound.counted_move moved (by omega)
    commits := ?_
    committing := ?_
    committed := ?_
    empty := ?_
    distinct := header ▸ sound.distinct
    waits := ?_ }
  · intro process inCommit
    rw [committing]
    obtain ⟨running, alone⟩ := sound.commits process (commits.mp inCommit)
    exact ⟨running, fun other inCommit => alone other (commits.mp inCommit)⟩
  · rw [committing, outstanding]
    intro running
    obtain ⟨none, process, inCommit⟩ := sound.committing running
    exact ⟨none, process, commits.mpr inCommit⟩
  · intro process done
    rw [header]
    refine sound.committed process ?_
    by_cases same : process = self
    · rw [same, here] at done
      rw [done] at after
      exact absurd trivial after
    · rw [← elsewhere same]
      exact done
  · rw [outstanding, committing, header]
    exact sound.empty
  · intro process asleep
    rw [committing, full]
    have reason : queue.committing = true ∨ queue.Full ∨
        ∃ waker, process ∈ (queue.point waker).toWake := by
      by_cases same : process = self
      · rw [same, here] at asleep
        rcases waits asleep with running | tight | before
        · exact .inl running
        · exact .inr (.inl tight)
        · rw [same]
          exact sound.waits self before
      · rw [elsewhere same] at asleep
        exact sound.waits process asleep
    refine reason.imp_right fun reason => reason.imp_right ?_
    rintro ⟨waker, member⟩
    refine ⟨waker, ?_⟩
    rw [elsewhere]
    · exact member
    · rintro rfl
      rw [wakes] at member
      cases member

end

omit [DecidableEq Process] [Fintype Process] sound in
theorem full_mono (full : queue.Full) (length : queue.header.length ≤ next.header.length)
    (outstanding : queue.outstanding ≤ next.outstanding) : next.Full := by
  unfold Full at full ⊢
  have product := Nat.mul_le_mul_right maxOpBlocks (Nat.add_le_add_right outstanding 1)
  omega

omit [Fintype Process] sound in
theorem moved_self (moved : next.point = update queue.point self point) :
    next.point self = point := by
  rw [moved, update_self]

omit [Fintype Process] sound in
theorem moved_other (moved : next.point = update queue.point self point)
    (differs : process ≠ self) : next.point process = queue.point process := by
  rw [moved, update_of_ne differs]

omit [DecidableEq Process] in
theorem not_commits (idle : queue.committing = false) (process : Process) :
    ¬(queue.point process).Commits := by
  intro inCommit
  cases idle.symm.trans (sound.commits process inCommit).1

theorem none_commits (idle : queue.committing = false)
    (moved : next.point = update queue.point self point) (after : ¬point.Commits)
    (process : Process) : ¬(next.point process).Commits := by
  by_cases same : process = self
  · rw [same, moved_self moved]
    exact after
  · rw [moved_other moved same]
    exact sound.not_commits idle process

omit [Fintype Process] sound in
theorem waker_stays (moved : next.point = update queue.point self point)
    (quiet : (queue.point self).toWake = [])
    (woken : ∃ waker, process ∈ (queue.point waker).toWake) :
    ∃ waker, process ∈ (next.point waker).toWake := by
  obtain ⟨waker, member⟩ := woken
  refine ⟨waker, ?_⟩
  rw [moved_other moved]
  · exact member
  · rintro rfl
    rw [quiet] at member
    cases member

theorem enter (free : queue.point self = .testing) (idle : queue.committing = false)
    (moved : next.point = update queue.point self .inside) (header : next.header = queue.header)
    (outstanding : next.outstanding = queue.outstanding + 1)
    (committing : next.committing = queue.committing) (unlocked : next.lock = none) :
    next.Sound := by
  have holder := (sound.locked self).mp (by rw [free]; trivial)
  have still := committing.trans idle
  have commits := sound.none_commits idle moved nofun
  refine {
    locked := sound.locked_move moved ?_ ?_
    counted := sound.counted_move moved ?_
    commits := fun process inCommit => absurd inCommit (commits process)
    committing := fun running => nomatch still.symm.trans running
    committed := fun process done =>
      absurd (show (next.point process).Commits by rw [done]; trivial)
        (commits process)
    empty := fun none => absurd none (by omega)
    distinct := header ▸ sound.distinct
    waits := ?_ }
  · rw [unlocked]
    exact ⟨nofun, nofun⟩
  · intro other differs
    rw [holder, unlocked]
    exact iff_of_false (fun same => differs (Option.some.inj same).symm) nofun
  · rw [free, outstanding]
    rfl
  · intro process asleep
    have differs : process ≠ self := by
      rintro rfl
      rw [moved_self moved] at asleep
      exact asleep
    rw [moved_other moved differs] at asleep
    rcases sound.waits process asleep with running | full | woken
    · cases idle.symm.trans running
    · exact .inr (.inl (full_mono full (by rw [header]) (by omega)))
    · exact .inr (.inr (waker_stays moved (by rw [free]; rfl) woken))

omit [DecidableEq Process] in
theorem logWrite (log : Log) (block : Nat) : (queue.logWrite log block).Sound := by
  unfold LogQueue.logWrite
  split
  · exact { sound with }
  split
  · exact { sound with }
  · next some =>
    have idle : queue.committing = false := by
      by_contra commits
      have none := (sound.committing (by simpa using commits)).1
      omega
    have longer : queue.header.length ≤ (Log.absorb queue.header block).length := by
      unfold Log.absorb
      split
      · exact Nat.le_refl _
      · simp
    refine { sound with
      committed := ?_
      empty := ?_
      distinct := ?_
      waits := ?_ }
    · intro process done
      have running := (sound.commits process (by rw [done]; trivial)).1
      cases idle.symm.trans running
    · intro none
      exact absurd none (by simp only; omega)
    · unfold Log.absorb
      split
      · exact sound.distinct
      · next absent =>
          exact List.nodup_append.mpr ⟨sound.distinct, List.nodup_singleton _,
            fun first member second last => by
              rw [List.mem_singleton.mp last]
              rintro rfl
              exact absent member⟩
    · intro process asleep
      refine (sound.waits process asleep).imp_right fun reason =>
        reason.imp_left fun full => ?_
      exact full_mono full longer (Nat.le_refl _)

theorem endOp_last (inside : queue.point self = .inside) (idle : queue.committing = false)
    (free : queue.lock = none) (moved : next.point = update queue.point self .committing)
    (header : next.header = queue.header) (outstanding : next.outstanding = queue.outstanding - 1)
    (last : next.outstanding = 0) (committing : next.committing = true)
    (unlocked : next.lock = none) : next.Sound := by
  have some := sound.inside_pos inside
  have here : ∀ {process}, (next.point process).Commits → process = self := by
    intro process inCommit
    by_contra differs
    rw [moved_other moved differs] at inCommit
    exact sound.not_commits idle process inCommit
  refine {
    locked := sound.locked_move moved ?_ ?_
    counted := sound.counted_move moved ?_
    commits := fun process inCommit => ⟨committing, fun other others =>
      (here others).trans (here inCommit).symm⟩
    committing := fun _ => ⟨last, self, ?_⟩
    committed := ?_
    empty := fun _ idle => nomatch idle.symm.trans committing
    distinct := header ▸ sound.distinct
    waits := fun _ _ => .inl committing }
  · rw [unlocked]
    exact ⟨nofun, nofun⟩
  · intro other _
    rw [free, unlocked]
  · rw [inside, outstanding]
    change queue.outstanding - 1 + 1 = queue.outstanding + 0
    omega
  · rw [moved_self moved]
    trivial
  · intro process done
    have same : process = self := here (by rw [done]; trivial)
    rw [same, moved_self moved] at done
    cases done

theorem endOp_wakes (all : ∀ process, process ∈ procs) (inside : queue.point self = .inside)
    (idle : queue.committing = false) (free : queue.lock = none)
    (moved : next.point = update queue.point self (.waking procs))
    (header : next.header = queue.header) (outstanding : next.outstanding = queue.outstanding - 1)
    (more : next.outstanding ≠ 0) (committing : next.committing = queue.committing)
    (locked : next.lock = some self) : next.Sound := by
  have still := committing.trans idle
  have commits := sound.none_commits idle moved nofun
  refine {
    locked := sound.locked_move moved ?_ ?_
    counted := sound.counted_move moved ?_
    commits := fun process inCommit => absurd inCommit (commits process)
    committing := fun running => nomatch still.symm.trans running
    committed := fun process done =>
      absurd (show (next.point process).Commits by rw [done]; trivial)
        (commits process)
    empty := fun none => absurd none more
    distinct := header ▸ sound.distinct
    waits := ?_ }
  · rw [locked]
    exact iff_of_true trivial rfl
  · intro other differs
    rw [free, locked]
    exact iff_of_false nofun fun same => differs (Option.some.inj same).symm
  · rw [inside, outstanding]
    change queue.outstanding - 1 + 1 = queue.outstanding + 0
    have some := sound.inside_pos inside
    omega
  · intro process _
    refine .inr (.inr ⟨self, ?_⟩)
    rw [moved_self moved]
    exact all process

theorem commit (running : queue.point self = .committing)
    (moved : next.point = update queue.point self .committed) (header : next.header = [])
    (outstanding : next.outstanding = queue.outstanding)
    (committing : next.committing = queue.committing) (lock : next.lock = queue.lock) :
    next.Sound := by
  obtain ⟨busy, alone⟩ := sound.commits self (by rw [running]; trivial)
  have free : queue.lock ≠ some self := by
    rw [ne_eq, ← sound.locked, running]
    nofun
  have commits : ∀ {process}, (next.point process).Commits ↔ (queue.point process).Commits := by
    intro process
    by_cases same : process = self
    · rw [same, moved_self moved, running]
      exact Iff.rfl
    · rw [moved_other moved same]
  refine {
    locked := sound.locked_move moved ?_ fun _ _ => by rw [lock]
    counted := sound.counted_move moved ?_
    commits := ?_
    committing := ?_
    committed := fun _ _ => header
    empty := fun _ _ => header
    distinct := header ▸ .nil
    waits := fun _ _ => .inl (committing.trans busy) }
  · rw [lock]
    exact iff_of_false nofun free
  · rw [running, outstanding]
    rfl
  · intro process inCommit
    rw [committing]
    obtain ⟨busy, alone⟩ := sound.commits process (commits.mp inCommit)
    exact ⟨busy, fun other others => alone other (commits.mp others)⟩
  · rw [committing, outstanding]
    intro busy
    obtain ⟨none, process, inCommit⟩ := sound.committing busy
    exact ⟨none, process, commits.mpr inCommit⟩

theorem finish (all : ∀ process, process ∈ procs) (done : queue.point self = .committed)
    (free : queue.lock = none) (moved : next.point = update queue.point self (.finishing procs))
    (header : next.header = queue.header) (outstanding : next.outstanding = queue.outstanding)
    (committing : next.committing = false) (locked : next.lock = some self) : next.Sound := by
  obtain ⟨busy, alone⟩ := sound.commits self (by rw [done]; trivial)
  have commits : ∀ process, ¬(next.point process).Commits := by
    intro process inCommit
    by_cases same : process = self
    · rw [same, moved_self moved] at inCommit
      exact inCommit
    · rw [moved_other moved same] at inCommit
      exact same (alone process inCommit)
  refine {
    locked := sound.locked_move moved ?_ ?_
    counted := sound.counted_move moved ?_
    commits := fun process inCommit => absurd inCommit (commits process)
    committing := fun busy => nomatch committing.symm.trans busy
    committed := fun process done =>
      absurd (show (next.point process).Commits by rw [done]; trivial)
        (commits process)
    empty := fun _ _ => header.trans (sound.committed self done)
    distinct := header ▸ sound.distinct
    waits := ?_ }
  · rw [locked]
    exact iff_of_true trivial rfl
  · intro other differs
    rw [free, locked]
    exact iff_of_false nofun fun same => differs (Option.some.inj same).symm
  · rw [done, outstanding]
    rfl
  · intro process _
    refine .inr (.inr ⟨self, ?_⟩)
    rw [moved_self moved]
    exact all process

theorem wakes (asleep : queue.point slot = .sleeping) : (queue.setPoint slot .woken).Sound := by
  refine sound.move rfl rfl rfl rfl ?_ (fun _ _ => Iff.rfl) ?_ ?_ nofun ?_ nofun
  · refine iff_of_false nofun fun held => ?_
    have locked := (sound.locked slot).mpr held
    rw [asleep] at locked
    exact locked
  · rw [asleep]
    rfl
  · rw [asleep]
    nofun
  · rw [asleep]
    rfl

theorem advance_wakeup (turn : (queue.point self).toWake = slot :: rest)
    (awake : ¬(queue.point slot).Waits) :
    (queue.setPoint self (advance (queue.point self) rest)).Sound := by
  have same : (advance (queue.point self) rest).toWake = rest ∧
      ((advance (queue.point self) rest).Locked ↔ (queue.point self).Locked) ∧
      (advance (queue.point self) rest).ops = (queue.point self).ops ∧
      ¬(advance (queue.point self) rest).Commits ∧ ¬(queue.point self).Commits ∧
      ¬(advance (queue.point self) rest).Waits := by
    generalize queue.point self = point at turn
    cases point with
    | waking => exact ⟨rfl, Iff.rfl, rfl, nofun, nofun, nofun⟩
    | finishing => exact ⟨rfl, Iff.rfl, rfl, nofun, nofun, nofun⟩
    | _ => cases turn
  obtain ⟨left, locked, ops, after, before, waits⟩ := same
  have commits : ∀ {process}, ((queue.setPoint self
      (advance (queue.point self) rest)).point process).Commits ↔
        (queue.point process).Commits := by
    intro process
    by_cases same : process = self
    · rw [same, setPoint_self]
      exact iff_of_false after before
    · rw [setPoint_other _ same]
  refine {
    locked := sound.locked_move rfl ?_ fun _ _ => Iff.rfl
    counted := sound.counted_move rfl ?_
    commits := ?_
    committing := ?_
    committed := ?_
    empty := sound.empty
    distinct := sound.distinct
    waits := ?_ }
  · rw [locked, sound.locked]
    exact Iff.rfl
  · rw [ops]
    rfl
  · intro process inCommit
    obtain ⟨busy, alone⟩ := sound.commits process (commits.mp inCommit)
    exact ⟨busy, fun other others => alone other (commits.mp others)⟩
  · intro busy
    obtain ⟨none, process, inCommit⟩ := sound.committing busy
    exact ⟨none, process, commits.mpr inCommit⟩
  · intro process done
    have differs : process ≠ self := by
      rintro rfl
      rw [setPoint_self] at done
      rw [done] at after
      exact after trivial
    rw [setPoint_other _ differs] at done
    exact sound.committed process done
  · intro process asleep
    have differs : process ≠ self := by
      rintro rfl
      rw [setPoint_self] at asleep
      exact waits asleep
    rw [setPoint_other _ differs] at asleep
    refine (sound.waits process asleep).imp_right fun reason =>
      reason.imp_right ?_
    rintro ⟨waker, member⟩
    refine ⟨waker, ?_⟩
    by_cases here : waker = self
    · subst here
      rw [setPoint_self, left]
      rw [turn] at member
      refine (List.mem_cons.mp member).resolve_left ?_
      rintro rfl
      exact awake asleep
    · rw [setPoint_other _ here]
      exact member

theorem wake (turn : (queue.point self).toWake = slot :: rest)
    (notFalling : queue.point slot ≠ .falling) (notDozing : queue.point slot ≠ .dozing) :
    ((queue.visit slot).setPoint self (advance (queue.point self) rest)).Sound := by
  unfold visit
  split
  · next asleep =>
      have differs : self ≠ slot := by
        rintro rfl
        rw [asleep] at turn
        cases turn
      have same := setPoint_other queue differs .woken
      rw [← same] at turn ⊢
      refine (sound.wakes asleep).advance_wakeup turn ?_
      rw [setPoint_self]
      nofun
  · next awake =>
      refine sound.advance_wakeup turn fun waits => ?_
      generalize queue.point slot = point at waits notFalling notDozing awake
      cases point with
      | falling => exact notFalling rfl
      | dozing => exact notDozing rfl
      | sleeping => exact awake rfl
      | _ => exact waits

end Sound

theorem Step.sound (all : ∀ process, process ∈ procs) (taken : Step log procs queue event next)
    (sound : queue.Sound) : next.Sound := by
  cases taken with
  | acquire _ free here =>
    refine sound.move rfl rfl rfl rfl (iff_of_true trivial rfl) ?_ ?_ ?_ nofun ?_ nofun
    · intro other differs
      rw [free]
      exact iff_of_false nofun fun same => differs (Option.some.inj same).symm
    all_goals
      rcases here with here | here <;> rw [here] <;> first | rfl | nofun
  | @mustWait _ self _ here reason =>
    refine sound.move rfl rfl rfl rfl ?_ (fun _ _ => Iff.rfl) ?_ ?_ nofun
      ?_ fun _ => reason.imp_right .inl
    · refine iff_of_true trivial ((sound.locked self).mp ?_)
      rw [here]
      trivial
    all_goals
      rw [here]
      first
      | rfl
      | nofun
  | enter _ here idle _ => exact sound.enter here idle rfl rfl rfl rfl rfl
  | @doze _ self _ here =>
    have holder := (sound.locked self).mp (by rw [here]; trivial)
    refine sound.move rfl rfl rfl rfl ⟨nofun, nofun⟩ ?_ ?_ ?_ nofun ?_
      fun _ => .inr (.inr (by rw [here]; trivial))
    · intro other differs
      rw [holder]
      exact iff_of_false (fun same => differs (Option.some.inj same).symm) nofun
    all_goals
      rw [here]
      first
      | rfl
      | nofun
  | @sched _ self _ here =>
    refine sound.move rfl rfl rfl rfl ?_ (fun _ _ => Iff.rfl) ?_ ?_ nofun
      ?_ fun _ => .inr (.inr (by rw [here]; trivial))
    · refine iff_of_false nofun fun held => ?_
      have locked := (sound.locked self).mpr held
      rw [here] at locked
      exact locked
    all_goals
      rw [here]
      first
      | rfl
      | nofun
  | kill _ asleep => exact sound.wakes asleep
  | logWrite => exact sound.logWrite log _
  | @endOp _ self _ free inside =>
    have idle := sound.not_committing inside
    unfold LogQueue.endOp
    rw [if_neg (by rw [idle]; nofun)]
    split
    · next last =>
        exact sound.endOp_last inside idle free rfl rfl rfl last rfl free
    · next more =>
        exact sound.endOp_wakes all inside idle free rfl rfl rfl more rfl rfl
  | wake _ turn notFalling notDozing =>
    exact sound.wake turn notFalling notDozing
  | @wakeupDone _ self _ done =>
    have holder := (sound.locked self).mp (by
      rcases done with done | done <;> rw [done] <;> trivial)
    refine sound.move rfl rfl rfl rfl ⟨nofun, nofun⟩ ?_ ?_ ?_ nofun ?_ nofun
    · intro other differs
      rw [holder]
      exact iff_of_false (fun same => differs (Option.some.inj same).symm) nofun
    all_goals
      rcases done with done | done <;> rw [done] <;> first | rfl | nofun
  | commit _ running => exact sound.commit running rfl rfl rfl rfl rfl
  | finish _ free done =>
    exact sound.finish all done free rfl rfl rfl rfl rfl

open Transition

theorem run_sound (all : ∀ process, process ∈ procs)
    (run : Run (Step log procs) initial events queue) : queue.Sound :=
  run.invariant Sound initial_sound fun sound taken => taken.sound all sound

omit [Fintype Process] in
theorem Step.committing_kept (taken : Step log procs queue event next)
    (commits : queue.committing = true) (unfinished : ∀ self, event ≠ .finish self) :
    next.committing = true := by
  cases taken with
  | finish => exact absurd rfl (unfinished _)
  | logWrite =>
    unfold LogQueue.logWrite
    split
    · exact commits
    · split <;> exact commits
  | endOp =>
    unfold LogQueue.endOp
    rw [if_pos commits]
    exact commits
  | wake =>
    unfold visit
    split <;> exact commits
  | _ => exact commits

omit [Fintype Process] in
theorem run_committing (run : Run (Step log procs) queue events next)
    (commits : queue.committing = true) (unfinished : ∀ self, .finish self ∉ events) :
    next.committing = true := by
  induction run with
  | refl => exact commits
  | tail _ taken induction =>
    refine taken.committing_kept (induction fun self member =>
      unfinished self (List.mem_append_left _ member)) fun self same => ?_
    subst same
    exact unfinished self (List.mem_append_right _ (.head _))

omit [DecidableEq Process] in
theorem Sound.logWrite_header (sound : queue.Sound) (commits : queue.committing = true)
    (block : Nat) : (queue.logWrite log block).header = queue.header := by
  have none := (sound.committing commits).1
  unfold LogQueue.logWrite
  split
  · rfl
  · rw [if_pos (by omega)]

omit [DecidableEq Process] in
theorem Sound.asleep_reason (sound : queue.Sound) (free : queue.lock = none)
    (asleep : queue.point process = .sleeping) : queue.committing = true ∨ queue.Full := by
  have reason := sound.waits process (by rw [asleep]; trivial)
  refine reason.imp_right fun full => full.resolve_right ?_
  rintro ⟨waker, member⟩
  have unlocked : ¬(queue.point waker).Locked := by
    rw [sound.locked, free]
    nofun
  generalize queue.point waker = point at member unlocked
  cases point with
  | waking => exact unlocked trivial
  | finishing => exact unlocked trivial
  | _ => cases member

/-- A commit writes whole operations, and no process is left asleep on &log
once there is room for its operation. -/
theorem commit_whole_none_stranded (log : Log) (procs : List Process)
    (all : ∀ process, process ∈ procs) {events : List (QueueEvent Process)}
    {queue : LogQueue Process} (run : Run (Step log procs) initial events queue)
    (free : queue.lock = none) :
    (queue.committing = true → queue.outstanding = 0 ∧
        ∀ {later : List (QueueEvent Process)} {middle next self block},
        Run (Step log procs) queue later middle → (∀ process, .finish process ∉ later) →
        Step log procs middle (.logWrite self block) next → next.header = middle.header) ∧
      (queue.outstanding = 0 → queue.committing = false → queue.header.length = 0) ∧
      queue.header.Nodup ∧ ∀ process, queue.point process = .sleeping →
      ¬(queue.committing = false ∧ queue.header.length + (queue.outstanding + 1) * maxOpBlocks ≤
        logSize) := by
  have sound := run_sound all run
  refine ⟨fun commits => ⟨(sound.committing commits).1, ?_⟩,
    fun none idle => by rw [sound.empty none idle]; rfl, sound.distinct, ?_⟩
  · intro later middle next self block during unfinished taken
    have middleSound := run_sound all (run.trans during)
    have still := run_committing during commits unfinished
    cases taken with
    | logWrite => exact middleSound.logWrite_header still block
  · rintro process asleep ⟨idle, room⟩
    rcases sound.asleep_reason free asleep with commits | full
    · cases idle.symm.trans commits
    · unfold Full at full
      omega

/-- Process 0 commits while process 1 sleeps in begin_op(). -/
def waitingForCommit : LogQueue (Fin 2) where
  header := []
  outstanding := 0
  committing := true
  lock := none
  point process := if process = 0 then .committing else .sleeping
  panic := none

theorem waitingForCommit_reached :
    Run (Step Log.mkfs [0, 1]) initial [.acquire 0, .enter 0, .endOp 0, .acquire 1, .mustWait 1,
        .doze 1, .sched 1] waitingForCommit := by
  let steps := Run (Step Log.mkfs [0, 1]) (initial : LogQueue (Fin 2))
  have entered : steps ([.acquire 0] ++ [.enter 0]) _ :=
    (Run.single (.acquire rfl rfl (.inl rfl))).tail (.enter rfl rfl rfl (by decide))
  have ended : steps (_ ++ [.endOp 0]) _ := entered.tail (.endOp rfl rfl rfl)
  have tested : steps (_ ++ [.acquire 1]) _ :=
    ended.tail (.acquire rfl rfl (.inl rfl))
  have waits : steps (_ ++ [.mustWait 1]) _ :=
    tested.tail (.mustWait rfl rfl (.inl rfl))
  have dozes : steps (_ ++ [.doze 1]) _ := waits.tail (.doze rfl rfl)
  have run : steps (_ ++ [.sched 1]) _ := dozes.tail (.sched rfl rfl)
  convert run using 1
  · rfl
  · unfold waitingForCommit
    congr
    funext process
    fin_cases process <;> rfl

theorem waiting_commit_is_whole :
    waitingForCommit.point 1 = .sleeping ∧ waitingForCommit.lock = none ∧
      waitingForCommit.committing = true ∧ waitingForCommit.outstanding = 0 :=
  ⟨rfl, rfl, rfl, ((commit_whole_none_stranded Log.mkfs [0, 1] (by decide)
    waitingForCommit_reached rfl).1 rfl).1⟩

end LogQueue

end Xv6Lottery
