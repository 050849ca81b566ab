import Xv6Lottery.Disk.Kernel
import Xv6Lottery.Lib.Tally

/-! Which buffers of the cache agree with the disk. -/

namespace Xv6Lottery.Disk

open Concurrent Transition Function

/-- How many transactions a process has begun, or, in commit(), the length of
the log and how many of its blocks it has installed. -/
inductive LogPoint where
  | op (depth : Nat)
  | commit (count installed : Nat)
  deriving DecidableEq

def LogPoint.outstanding : LogPoint → Nat
  | .op depth => depth
  | .commit _ _ => 0

section Kernel

variable {Agent : Type} {kernel next : Kernel Agent} {b : Nat}

namespace Kernel

def Clean (kernel : Kernel Agent) (b : Nat) : Prop :=
  ∀ data, kernel.cache b = some data → data = kernel.disk b

theorem Clean.congr (clean : kernel.Clean b) (cache : next.cache b = kernel.cache b)
    (disk : next.disk b = kernel.disk b) : next.Clean b := by
  intro data cached
  rw [cache] at cached
  rw [disk]
  exact clean data cached

theorem Clean.view (clean : kernel.Clean b) : kernel.view b = kernel.disk b := by
  unfold Kernel.view
  cases cached : kernel.cache b with
  | none => rfl
  | some data => exact clean data cached

theorem Clean.read (clean : kernel.Clean b) (other : Nat) :
    (kernel.setBuf other (kernel.view other)).Clean b := by
  by_cases same : b = other
  · subst same
    intro data cached
    have found := (update_self b _ kernel.cache).symm.trans cached
    cases found
    exact clean.view
  · exact clean.congr (update_of_ne same ..) rfl

theorem clean_bwrite (kernel : Kernel Agent) (b : Nat) (data : Block) :
    (kernel.bwrite b data).Clean b := by
  intro found cached
  have written := (update_self b _ kernel.cache).symm.trans cached
  cases written
  exact (update_self b data kernel.disk).symm

theorem Clean.write (clean : kernel.Clean b) (other : Nat) (data : Block) :
    (kernel.bwrite other data).Clean b := by
  by_cases same : b = other
  · subst same
    exact clean_bwrite kernel b data
  · exact clean.congr (update_of_ne same ..) (update_of_ne same ..)

theorem Clean.writeLog (clean : kernel.Clean b) (sb : Superblock)
    (tail : Nat) : (kernel.writeLog sb tail).Clean b :=
  (clean.read _).write _ _

theorem Clean.install (clean : kernel.Clean b) (sb : Superblock)
    (tail : Nat) : (kernel.install sb tail).Clean b :=
  ((clean.read _).write _ _).congr rfl rfl

theorem clean_install (kernel : Kernel Agent) (sb : Superblock)
    (tail : Nat) : (kernel.install sb tail).Clean (kernel.home tail) :=
  (clean_bwrite _ _ _).congr rfl rfl

end Kernel

variable [Fintype Agent] {knowledge : Agent → LogPoint} {self : Agent}

structure LogSound (kernel : Kernel Agent) (knowledge : Agent → LogPoint) : Prop where
  counted : kernel.outstanding = ∑ self, (knowledge self).outstanding
  closed : kernel.committing = true → kernel.outstanding = 0
  committing : ∀ {self count installed}, knowledge self = .commit count installed →
      kernel.committing = true ∧ kernel.lh.length = count
  alone : ∀ {self other count installed count' installed'},
    knowledge self = .commit count installed →
      knowledge other = .commit count' installed' → self = other
  installed : ∀ {self count installed}, knowledge self = .commit count installed →
      ∀ b ∈ kernel.lh.take installed, kernel.Clean b
  unpinned : ∀ b ∈ kernel.lh, kernel.pinned b = false →
    ∃ self count installed, knowledge self = .commit count installed ∧ b ∈ kernel.lh.take installed
  spoilt : ∀ b, kernel.spoilt b = true → b ∉ kernel.lh
  clean : ∀ b, b ∉ kernel.lh → kernel.spoilt b = false → kernel.Clean b

namespace LogSound

section

variable (sound : LogSound kernel knowledge)

include sound

theorem keep
    (outstanding : next.outstanding = kernel.outstanding)
    (committing : next.committing = kernel.committing) (lh : next.lh = kernel.lh)
    (pinned : next.pinned = kernel.pinned) (spoilt : next.spoilt = kernel.spoilt)
    (clean : ∀ b, kernel.Clean b → next.Clean b) : LogSound next knowledge where
  counted := outstanding.trans sound.counted
  closed := by
    rw [outstanding, committing]
    exact sound.closed
  committing := by
    rw [committing, lh]
    exact sound.committing
  alone := sound.alone
  installed := by
    intro self count installed commits b member
    rw [lh] at member
    exact clean b (sound.installed commits b member)
  unpinned := by
    rw [lh, pinned]
    exact sound.unpinned
  spoilt := by
    rw [lh, spoilt]
    exact sound.spoilt
  clean := by
    intro b absent unspoilt
    rw [lh] at absent
    rw [spoilt] at unspoilt
    exact clean b (sound.clean b absent unspoilt)

theorem read (b : Nat) :
    LogSound (kernel.setBuf b (kernel.view b)) knowledge :=
  sound.keep rfl rfl rfl rfl rfl fun _ clean => clean.read b

theorem no_commit (open_ : 0 < kernel.outstanding)
    {count installed : Nat} : knowledge self ≠ .commit count installed := by
  intro commits
  have none := sound.closed (sound.committing commits).1
  omega

theorem all_pinned (open_ : 0 < kernel.outstanding)
    (member : b ∈ kernel.lh) : kernel.pinned b = true := by
  cases pinned : kernel.pinned b with
  | true => rfl
  | false =>
    obtain ⟨_, _, _, commits, _⟩ := sound.unpinned b member pinned
    exact (sound.no_commit open_ commits).elim

theorem outstanding_pos
    (mine : knowledge self = .op (depth + 1)) : 0 < kernel.outstanding := by
  rw [sound.counted]
  have own : (knowledge self).outstanding = depth + 1 := by rw [mine]; rfl
  have bound := Finset.single_le_sum (f := fun other =>
    (knowledge other).outstanding) (fun _ _ => Nat.zero_le _)
    (Finset.mem_univ self)
  simp only [own] at bound
  omega

theorem log (open_ : 0 < kernel.outstanding)
    (outstanding : next.outstanding = kernel.outstanding)
    (committing : next.committing = kernel.committing)
    (lh : next.lh = if b ∈ kernel.lh then kernel.lh else kernel.lh ++ [b])
    (pinned : next.pinned = update kernel.pinned b true)
    (spoilt : next.spoilt = update kernel.spoilt b false)
    (others : ∀ other, other ≠ b → kernel.Clean other → next.Clean other) :
    LogSound next knowledge := by
  have member : ∀ other, other ∈ next.lh ↔ other ∈ kernel.lh ∨ other = b := by
    intro other
    rw [lh]
    split
    next inside =>
      constructor
      · exact .inl
      · rintro (old | rfl)
        · exact old
        · exact inside
    next => rw [List.mem_append, List.mem_singleton]
  exact {
    counted := outstanding.trans sound.counted
    closed := by
      rw [outstanding, committing]
      exact sound.closed
    committing := fun commits => (sound.no_commit open_ commits).elim
    alone := sound.alone
    installed := fun commits => (sound.no_commit open_ commits).elim
    unpinned := by
      intro other inside free
      have differs : other ≠ b := by
        rintro rfl
        rw [pinned, update_self] at free
        cases free
      rw [pinned, update_of_ne differs] at free
      have old := ((member other).mp inside).resolve_right differs
      rw [sound.all_pinned open_ old] at free
      cases free
    spoilt := by
      intro other bad inside
      have differs : other ≠ b := by
        rintro rfl
        rw [spoilt, update_self] at bad
        cases bad
      rw [spoilt, update_of_ne differs] at bad
      exact sound.spoilt other bad (((member other).mp inside).resolve_right differs)
    clean := by
      intro other absent unspoilt
      have differs : other ≠ b := fun same =>
        absent ((member other).mpr (.inr same))
      rw [spoilt, update_of_ne differs] at unspoilt
      exact others other differs (sound.clean other
        (fun inside => absent ((member other).mpr (.inl inside))) unspoilt) }

theorem logWrite {result : Type} {answer value : result}
    (done : kernel.logWrite sb b data answer = .done value next) :
    value = answer ∧ LogSound next knowledge := by
  unfold Kernel.logWrite at done
  split at done
  · cases done
  split at done
  · cases done
  next inside =>
    cases done
    refine ⟨rfl, sound.log (Nat.lt_of_not_le fun none => inside (by omega))
      rfl rfl rfl rfl rfl fun other differs clean => ?_⟩
    exact clean.congr (update_of_ne differs ..) rfl

theorem copyin (open_ : 0 < kernel.outstanding) {src : Source}
    (done : kernel.copyin sb b offset src start count = .done value next) :
    LogSound next knowledge := by
  unfold Kernel.copyin at done
  simp only at done
  split at done
  · exact (sound.logWrite done).2
  cases done
  have others : ∀ other, other ≠ b → kernel.Clean other →
      (kernel.setBuf b ((kernel.view b).setBytes offset (src.copied start count))).Clean other :=
    fun other differs clean =>
      clean.congr (update_of_ne differs ..) rfl
  by_cases nothing : src.copied start count = []
  · simp only [nothing, true_or, if_true]
    exact (sound.read b).keep rfl rfl rfl rfl rfl fun other clean => clean
  refine {
    counted := sound.counted
    closed := sound.closed
    committing := fun commits => (sound.no_commit open_ commits).elim
    alone := sound.alone
    installed := fun commits => (sound.no_commit open_ commits).elim
    unpinned := sound.unpinned
    spoilt := ?_
    clean := ?_ }
  · intro other bad
    simp only [nothing, false_or] at bad
    split at bad
    · exact sound.spoilt other bad
    next absent =>
      by_cases same : other = b
      · rw [same]
        exact absent
      · rw [update_of_ne same] at bad
        exact sound.spoilt other bad
  · intro other absent unspoilt
    simp only [nothing, false_or] at unspoilt
    split at unspoilt
    next inside =>
      exact others other (fun same => absent (same ▸ inside)) (sound.clean other absent unspoilt)
    next =>
      by_cases same : other = b
      · rw [same, update_self] at unspoilt
        cases unspoilt
      · rw [update_of_ne same] at unspoilt
        exact others other same (sound.clean other absent unspoilt)

theorem recycle (b : Nat) :
    LogSound (kernel.recycle b) knowledge := by
  unfold Kernel.recycle
  split
  · exact sound
  have stays : ∀ other, kernel.Clean other →
      ({ kernel with
          cache := update kernel.cache b none
          spoilt := update kernel.spoilt b false } :
        Kernel Agent).Clean other := by
    intro other clean data cached
    by_cases same : other = b
    · subst same
      have found := (update_self other _ kernel.cache).symm.trans cached
      cases found
    · exact clean data ((update_of_ne same ..).symm.trans cached)
  refine {
    counted := sound.counted
    closed := sound.closed
    committing := sound.committing
    alone := sound.alone
    installed := fun commits other member =>
      stays other (sound.installed commits other member)
    unpinned := sound.unpinned
    spoilt := ?_
    clean := ?_ }
  · intro other bad
    by_cases same : other = b
    · simp [same] at bad
    · simp only [update_of_ne same] at bad
      exact sound.spoilt other bad
  · intro other absent unspoilt
    by_cases same : other = b
    · subst same
      intro data cached
      have found := (update_self other _ kernel.cache).symm.trans cached
      cases found
    · simp only [update_of_ne same] at unspoilt
      exact stays other (sound.clean other absent unspoilt)

theorem writeLog (sb : Superblock)
    (tail : Nat) : LogSound (kernel.writeLog sb tail) knowledge :=
  sound.keep rfl rfl rfl rfl rfl fun _ clean => clean.writeLog sb tail

theorem writeHead (sb : Superblock) :
    LogSound (kernel.writeHead sb) knowledge :=
  sound.keep rfl rfl rfl rfl rfl fun _ clean => clean.write _ _

end

/-! A process moves on in its transaction. -/

variable [DecidableEq Agent]

section

variable (sound : LogSound kernel knowledge)

include sound

theorem counted_update (self : Agent) (point : LogPoint) :
    ∑ other, (update knowledge self point other).outstanding + (knowledge self).outstanding =
      kernel.outstanding + point.outstanding := by
  rw [sound.counted]
  exact Tally.sum_update Finset.univ LogPoint.outstanding knowledge (Finset.mem_univ self) point

theorem beginOp (mine : knowledge self = .op depth)
    (done : kernel.beginOp = .done value next) :
    LogSound next (update knowledge self (.op (depth + 1))) := by
  unfold Kernel.beginOp at done
  split at done
  · cases done
  next free =>
    cases done
    have count := sound.counted_update self (.op (depth + 1))
    rw [mine] at count
    change _ + depth = _ + (depth + 1) at count
    have elsewhere : ∀ {other count installed}, update knowledge self (.op (depth + 1)) other =
          .commit count installed → knowledge other = .commit count installed := by
      intro other count installed commits
      by_cases same : other = self
      · rw [same, update_self] at commits
        cases commits
      · rwa [update_of_ne same] at commits
    exact {
      counted := by
        change kernel.outstanding + 1 = _
        omega
      closed := fun committing => absurd (.inl committing) free
      committing := fun commits => sound.committing (elsewhere commits)
      alone := fun first second =>
        sound.alone (elsewhere first) (elsewhere second)
      installed := fun commits => sound.installed (elsewhere commits)
      unpinned := by
        intro b member loose
        obtain ⟨other, count, installed, commits, inside⟩ :=
          sound.unpinned b member loose
        exact absurd (.inl (sound.committing commits).1) free
      spoilt := sound.spoilt
      clean := sound.clean }

theorem endOp (mine : knowledge self = .op (depth + 1))
    (done : kernel.endOp = .done last next) :
    (last = true → depth = 0) ∧ LogSound next (update knowledge self
        (if last then .commit kernel.lh.length 0 else .op depth)) := by
  have open_ := sound.outstanding_pos mine
  have others : ∀ {point : LogPoint} {other count installed}, other ≠ self →
      update knowledge self point other ≠ .commit count installed := by
    intro point other count installed differs
    rw [update_of_ne differs]
    exact sound.no_commit open_
  have pinned : ∀ b ∈ kernel.lh, kernel.pinned b ≠ false := by
    intro b member loose
    rw [sound.all_pinned open_ member] at loose
    cases loose
  unfold Kernel.endOp at done
  split at done
  · cases done
  next free =>
    split at done
    next final =>
      cases done
      have count := sound.counted_update self (.commit kernel.lh.length 0)
      rw [mine] at count
      change _ + (depth + 1) = _ + 0 at count
      have known : ∀ {other count installed},
          update knowledge self (.commit kernel.lh.length 0) other = .commit count installed →
          other = self ∧ kernel.lh.length = count ∧ 0 = installed := by
        intro other count installed commits
        by_cases same : other = self
        · rw [same, update_self] at commits
          cases commits
          exact ⟨same, rfl, rfl⟩
        · exact (others same commits).elim
      refine ⟨fun _ => by omega, ?_⟩
      exact {
        counted := by
          rw [if_pos rfl]
          change kernel.outstanding - 1 = _
          omega
        closed := fun _ => final
        committing := fun commits => ⟨rfl, (known commits).2.1⟩
        alone := fun first second =>
          (known first).1.trans (known second).1.symm
        installed := by
          intro other count installed commits b member
          rw [← (known commits).2.2] at member
          cases member
        unpinned := fun b member loose => (pinned b member loose).elim
        spoilt := sound.spoilt
        clean := sound.clean }
    next more =>
      cases done
      have count := sound.counted_update self (.op depth)
      rw [mine] at count
      change _ + (depth + 1) = _ + depth at count
      have none : ∀ {other count installed}, update knowledge self (.op depth) other ≠
            .commit count installed := by
        intro other count installed commits
        by_cases same : other = self
        · rw [same, update_self] at commits
          cases commits
        · exact others same commits
      refine ⟨nofun, ?_⟩
      exact {
        counted := by
          rw [if_neg Bool.false_ne_true]
          change kernel.outstanding - 1 = _
          omega
        closed := fun committing => absurd committing free
        committing := fun commits => (none commits).elim
        alone := fun first => (none first).elim
        installed := fun commits => (none commits).elim
        unpinned := fun b member loose => (pinned b member loose).elim
        spoilt := sound.spoilt
        clean := sound.clean }

theorem commits_only {count installed : Nat}
    (mine : knowledge self = .commit count installed) {other : Agent}
    (commits : update knowledge self point other = .commit count' installed') :
    other = self ∧ point = .commit count' installed' := by
  by_cases same : other = self
  · rw [same, update_self] at commits
    exact ⟨same, commits⟩
  · rw [update_of_ne same] at commits
    exact absurd (sound.alone commits mine) same

theorem commit_counted {count installed : Nat}
    (mine : knowledge self = .commit count installed) (still : point.outstanding = 0) :
    kernel.outstanding = ∑ other, (update knowledge self point other).outstanding := by
  have total := sound.counted_update self point
  rw [mine, still] at total
  exact total.symm

theorem install (sb : Superblock)
    (mine : knowledge self = .commit count tail) (inside : tail < count) :
    LogSound (kernel.install sb tail) (update knowledge self (.commit count (tail + 1))) := by
  have length := (sound.committing mine).2
  have bound : tail < kernel.lh.length := by omega
  have home : kernel.home tail = kernel.lh[tail] := by
    unfold Kernel.home
    rw [List.getD_eq_getElem?_getD, List.getElem?_eq_getElem bound, Option.getD_some]
  have taken : ∀ b, b ∈ kernel.lh.take (tail + 1) ↔
      b ∈ kernel.lh.take tail ∨ b = kernel.home tail := by
    intro b
    rw [← List.take_append_getElem bound, List.mem_append, List.mem_singleton, home]
  refine {
    counted := sound.commit_counted mine rfl
    closed := sound.closed
    committing := ?_
    alone := ?_
    installed := ?_
    unpinned := ?_
    spoilt := sound.spoilt
    clean := fun b absent unspoilt =>
      (sound.clean b absent unspoilt).install sb tail }
  · intro other count' installed' commits
    obtain ⟨_, same⟩ := sound.commits_only mine commits
    cases same
    exact sound.committing mine
  · intro first second _ _ _ _ firstCommits secondCommits
    exact (sound.commits_only mine firstCommits).1.trans
      (sound.commits_only mine secondCommits).1.symm
  · intro other count' installed' commits b member
    obtain ⟨_, same⟩ := sound.commits_only mine commits
    cases same
    rcases (taken b).mp member with old | rfl
    · exact (sound.installed mine b old).install sb tail
    · exact Kernel.clean_install kernel sb tail
  · intro b member loose
    refine ⟨self, count, tail + 1, update_self .., ?_⟩
    apply (taken b).mpr
    by_cases same : b = kernel.home tail
    · exact .inr same
    · have before : kernel.pinned b = false :=
        (update_of_ne same ..).symm.trans loose
      obtain ⟨other, _, _, commits, old⟩ := sound.unpinned b member before
      have alone := sound.alone commits mine
      subst alone
      cases commits.symm.trans mine
      exact .inl old

theorem clearLog
    (mine : knowledge self = .commit count count) : LogSound { kernel with lh := [] }
      (update knowledge self (.commit 0 0)) where
  counted := sound.commit_counted mine rfl
  closed := sound.closed
  committing := by
    intro other count' installed' commits
    obtain ⟨_, same⟩ := sound.commits_only mine commits
    cases same
    exact ⟨(sound.committing mine).1, rfl⟩
  alone := fun first second => (sound.commits_only mine first).1.trans
    (sound.commits_only mine second).1.symm
  installed := by
    intro _ _ _ _ b member
    rw [List.take_nil] at member
    cases member
  unpinned := fun _ => nofun
  spoilt := fun _ _ => nofun
  clean := by
    intro b _ unspoilt
    have clean : kernel.Clean b := by
      by_cases member : b ∈ kernel.lh
      · refine sound.installed mine b ?_
        rwa [List.take_of_length_le (sound.committing mine).2.le]
      · exact sound.clean b member unspoilt
    exact clean.congr rfl rfl

theorem finishOp {installed : Nat}
    (mine : knowledge self = .commit 0 installed) : LogSound { kernel with committing := false }
      (update knowledge self (.op 0)) where
  counted := sound.commit_counted mine rfl
  closed := nofun
  committing := by
    intro _ _ _ commits
    cases (sound.commits_only mine commits).2
  alone := by
    intro _ _ _ _ _ _ commits
    cases (sound.commits_only mine commits).2
  installed := by
    intro _ _ _ commits
    cases (sound.commits_only mine commits).2
  unpinned := by
    intro b member
    have empty := List.length_eq_zero_iff.mp (sound.committing mine).2
    rw [empty] at member
    cases member
  spoilt := sound.spoilt
  clean := fun b absent unspoilt =>
    (sound.clean b absent unspoilt).congr rfl rfl

end

end LogSound

end Kernel

end Xv6Lottery.Disk
