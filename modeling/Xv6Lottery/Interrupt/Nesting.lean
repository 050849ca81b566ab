import Mathlib.Data.List.Nodup
import Xv6Lottery.Interrupt.Machine

/-! noff counts the locks of the context that a CPU executes, and intena is
the bit that this context found. -/

namespace Xv6Lottery.Interrupts

section Sound

variable {Process Cpu Name : Type}

def Point.Holds (self : Context Process Cpu) (held : List (Lock Process Name)) :
    Point Process Name → Prop
  | .code => True
  | .forkret | .yieldLocked | .yieldBack | .sleepReleased _ | .sleepBack _ =>
    ∃ slot, self = .proc slot ∧ held = [.proc slot]
  | .sleepLocked lk => ∃ slot, self = .proc slot ∧ lk ≠ .proc slot ∧ held = [.proc slot, lk]
  | .sleepUnlocked _ | .loop => held = []
  | .chosen slot | .back slot => held = [.proc slot]

namespace Phase

def Holds (self : Context Process Cpu) (held : List (Lock Process Name)) : Phase Process Name → Prop
  | .here point | .popping point => point.Holds self held
  | .disabling lk _ next | .spinning lk next =>
    lk ∉ held ∧ next.Holds self (lk :: held)
  | .resumed _ next => held ≠ [] ∧ next.Holds self held
  | .away _ _ | .unborn | .lent _ => False

/-- How far noff is ahead of the number of locks. -/
def pending : Phase Process Name → Nat
  | .spinning _ _ | .popping _ => 1
  | _ => 0

/-- The bit that the outermost pop_off() will find in intena. -/
def intena (hart : Hart) : Phase Process Name → Bool
  | .resumed saved _ => saved
  | _ => hart.intena

/-- Interrupted code: it has no lock, and what it knows of SIE is that it is
set. -/
structure Interruptible (context : Context Process Cpu) (phase : Phase Process Name) : Prop where
  settled : phase.pending = 0
  holds : phase.Holds context []
  read : ∀ {lk old next}, phase = .disabling lk old next → old = true

end Phase

def Frame.Returns (context : Context Process Cpu) (frame : Frame Process Name) :
    Prop :=
  ∀ phase, frame.trapped = some phase → phase.Interruptible context

structure Sound (context : Context Process Cpu) (hart : Hart)
    (frame : Frame Process Name) : Prop where
  count : hart.noff = frame.held.length + frame.phase.pending
  off : 0 < hart.noff → hart.sie = false
  read : ∀ {lk old next}, frame.phase = .disabling lk old next → hart.noff = 0 → hart.sie = old
  holds : frame.phase.Holds context frame.held
  returns : frame.Returns context
  distinct : frame.held.Nodup
  entry : ∀ slot, context = .proc slot → 0 < hart.noff → frame.phase.intena hart = frame.entry

namespace Sound

variable {self : Context Process Cpu} {hart : Hart}
  {frame : Frame Process Name} (sound : Sound self hart frame)

include sound

theorem off_of_held (held : frame.held ≠ []) : hart.sie = false := by
  have some := List.length_pos_iff.mpr held
  have count := sound.count
  exact sound.off (by omega)

theorem zero_of_on (on : hart.sie = true) : hart.noff = 0 := by
  by_contra nonzero
  cases on.symm.trans (sound.off (Nat.pos_of_ne_zero nonzero))

theorem unlocked_of_zero (zero : hart.noff = 0) : frame.held = [] ∧ frame.phase.pending = 0 := by
  have count := sound.count
  exact ⟨List.length_eq_zero_iff.mp (by omega), by omega⟩

theorem zero_of_unlocked (here : frame.phase = .here point)
    (unlocked : frame.held = []) : hart.noff = 0 := by
  rw [sound.count, here, unlocked]
  rfl

theorem setBit (here : frame.phase = .here point) (unlocked : frame.held = [])
    (bit : Bool) : Sound self { hart with sie := bit } frame := by
  have zero := sound.zero_of_unlocked here unlocked
  have never : ¬0 < hart.noff := Nat.not_lt.mpr (Nat.le_of_eq zero)
  refine ⟨sound.count, fun positive => absurd positive never, ?_,
    sound.holds, sound.returns, sound.distinct, fun _ _ positive => absurd positive never⟩
  intro _ _ _ same
  cases here.symm.trans same

end Sound

theorem Acquires.holds (calls : Acquires self held point lk next) (holds : point.Holds self held) :
    lk ∉ held ∧ next.Holds self (lk :: held) := by
  cases calls with
  | code fresh => exact ⟨fresh, trivial⟩
  | yield own => exact ⟨nofun, _, own, rfl⟩
  | sleep own other =>
    refine ⟨fun same => ?_, _, own, other, rfl⟩
    exact other (List.mem_singleton.mp same).symm
  | sleepEnd =>
    rw [show held = [] from holds]
    exact ⟨nofun, trivial⟩
  | loop =>
    rw [show held = [] from holds]
    exact ⟨nofun, rfl⟩

variable [DecidableEq Process] [DecidableEq Name]

theorem Releases.holds {held : List (Lock Process Name)}
    (calls : Releases self held point lk next) (holds : point.Holds self held) :
    lk ∈ held ∧ next.Holds self (held.erase lk) := by
  cases calls with
  | code member => exact ⟨member, trivial⟩
  | forkret own | yield own =>
    obtain ⟨slot, same, rfl⟩ := holds
    cases own.symm.trans same
    exact ⟨.head _, trivial⟩
  | sleep =>
    obtain ⟨slot, own, other, rfl⟩ := holds
    refine ⟨.tail _ (.head _), slot, own, ?_⟩
    rw [List.erase_cons_tail (by simpa using other.symm)]
    simp
  | sleepBack own =>
    obtain ⟨slot, same, rfl⟩ := holds
    cases own.symm.trans same
    refine ⟨.head _, ?_⟩
    change List.erase _ _ = []
    simp
  | passed | done =>
    rw [show held = _ from holds]
    refine ⟨.head _, ?_⟩
    change List.erase _ _ = []
    simp

namespace Local

variable {self : Context Process Cpu} {hart after : Hart}
  {frame left : Frame Process Name} {op : LockOp Process Name}

theorem sound (before : Sound self hart frame)
    (taken : Local self hart frame op after left) : Sound self after left := by
  obtain ⟨count, off, read, holds, returns, distinct, entry⟩ := before
  have before : Sound self hart frame :=
    ⟨count, off, read, holds, returns, distinct, entry⟩
  cases taken with
  | acquire here calls =>
    rw [here] at count holds entry
    refine ⟨count, off, ?_, calls.holds holds, returns, distinct, entry⟩
    rintro _ _ _ ⟨⟩ _
    rfl
  | @pushOff lk old next here =>
    rw [here] at count holds entry
    have depth : hart.noff = frame.held.length := count
    refine ⟨congrArg (· + 1) depth, fun _ => rfl, nofun, holds, returns, distinct, ?_⟩
    intro slot own _
    change (if hart.noff = 0 then old else hart.intena) =
      if frame.held = [] then hart.sie else frame.entry
    by_cases unlocked : frame.held = []
    · have zero : hart.noff = 0 := by rw [depth, unlocked]; rfl
      rw [if_pos zero, if_pos unlocked]
      exact (read here zero).symm
    · have positive := List.length_pos_iff.mpr unlocked
      rw [if_neg (by omega), if_neg unlocked]
      exact entry slot own (by omega)
  | take here =>
    rw [here] at count holds entry
    exact ⟨count, off, nofun, holds.2, returns, List.nodup_cons.mpr ⟨holds.1, distinct⟩, entry⟩
  | @release point lk next here calls =>
    rw [here] at count holds entry
    obtain ⟨member, kept⟩ := calls.holds holds
    have shorter := List.length_erase_of_mem member
    have positive := List.length_pos_of_mem member
    refine ⟨?_, off, nofun, kept, returns, distinct.erase lk, entry⟩
    change hart.noff = (frame.held.erase lk).length + 1
    have depth : hart.noff = frame.held.length := count
    omega
  | popOff here disabled positive =>
    rw [here] at count holds entry
    have depth : hart.noff = frame.held.length + 1 := count
    refine ⟨?_, ?_, nofun, holds, returns, distinct, ?_⟩
    · change hart.noff - 1 = frame.held.length + 0
      omega
    · intro still
      change (if hart.noff - 1 = 0 ∧ hart.intena = true then true
        else hart.sie) = false
      have nested : ¬(hart.noff - 1 = 0 ∧ hart.intena = true) :=
        fun last => absurd last.1 (Nat.ne_of_gt still)
      rw [if_neg nested]
      exact disabled
    · intro slot own _
      exact entry slot own positive
  | resume here =>
    rw [here] at count holds entry
    exact ⟨count, off, nofun, holds.2, returns, distinct, entry⟩
  | trap on fresh =>
    have zero := before.zero_of_on on
    obtain ⟨unlocked, settled⟩ := before.unlocked_of_zero zero
    refine ⟨?_, fun _ => rfl, nofun, trivial, ?_, distinct, ?_⟩
    · change hart.noff = frame.held.length + 0
      rw [zero, unlocked]
      rfl
    · rintro _ ⟨⟩
      rw [unlocked] at holds
      refine ⟨settled, holds, fun same => ?_⟩
      exact (read same zero).symm.trans on
    · intro _ _ positive
      exact absurd zero (Nat.ne_of_gt positive)
  | sret trapped here unlocked =>
    have zero := before.zero_of_unlocked here unlocked
    obtain ⟨settled, kept, known⟩ := returns _ trapped
    refine ⟨?_, ?_, fun same _ => (known same).symm, ?_, nofun, distinct, ?_⟩
    · change hart.noff = frame.held.length + Phase.pending _
      rw [zero, unlocked, settled]
      rfl
    · intro positive
      exact absurd zero (Nat.ne_of_gt positive)
    · change Phase.Holds self frame.held _
      rw [unlocked]
      exact kept
    · intro _ _ positive
      exact absurd zero (Nat.ne_of_gt positive)
  | toggle _ here unlocked => exact before.setBit here unlocked _
  | intrOn here =>
    rw [here] at holds
    exact before.setBit here holds true

theorem held (taken : Local self hart frame op after left) : left.held = op.held frame.held := by
  cases taken <;> rfl

end Local

end Sound

end Xv6Lottery.Interrupts
