import Mathlib.Logic.Function.Basic

/-! Programs over a disk behind a block cache, and a weakest precondition for
them that also speaks about every point at which the machine may stop. -/

namespace DiskProgram

open Function

variable {index data value result ghost : Type}

/-- A disk and the buffers read through to it.  `buf block` is what a read of
`block` returns: the cached copy, or the disk's when the block is not cached. -/
structure Machine (index data : Type) where
  disk : index → data
  buf : index → data
  pins : index → Nat

namespace Machine

def powerOn (disk : index → data) : Machine index data where
  disk := disk
  buf := disk
  pins := fun _ => 0

/-- Buffers that may be recycled hold what the disk holds. -/
def Coherent (machine : Machine index data) : Prop :=
  ∀ block, machine.pins block = 0 → machine.buf block = machine.disk block

theorem powerOn_coherent (disk : index → data) : (powerOn disk).Coherent :=
  fun _ _ => rfl

variable [DecidableEq index]

def write (machine : Machine index data) (block : index) (contents : data) :
    Machine index data where
  disk := update machine.disk block contents
  buf := update machine.buf block contents
  pins := machine.pins

def modify (machine : Machine index data) (block : index) (contents : data) : Machine index data :=
  { machine with buf := update machine.buf block contents }

/-- Recycle the buffer of a block: the next read goes to the disk. -/
def evict (machine : Machine index data) (block : index) : Machine index data :=
  machine.modify block (machine.disk block)

def pin (machine : Machine index data) (block : index) : Machine index data :=
  { machine with
    pins := update machine.pins block (machine.pins block + 1) }

def unpin (machine : Machine index data) (block : index) : Machine index data :=
  { machine with
    pins := update machine.pins block (machine.pins block - 1) }

theorem Coherent.write {machine : Machine index data} (coherent : machine.Coherent)
    (block : index) (contents : data) : (machine.write block contents).Coherent := by
  intro other unpinned
  by_cases same : other = block
  · subst same
    simp [Machine.write]
  · simpa [Machine.write, same] using coherent other unpinned

theorem Coherent.write_unpin {machine : Machine index data} (coherent : machine.Coherent)
    (block : index) (contents : data) : ((machine.write block contents).unpin block).Coherent := by
  intro other unpinned
  by_cases same : other = block
  · subst same
    simp [Machine.write, Machine.unpin]
  · simp only [Machine.unpin, Machine.write, update_of_ne same] at unpinned ⊢
    exact coherent other unpinned

/-- Under coherence recycling a buffer is invisible. -/
theorem Coherent.evict_eq {machine : Machine index data} (coherent : machine.Coherent)
    (unpinned : machine.pins block = 0) : machine.evict block = machine := by
  simp only [evict, modify, ← coherent block unpinned, update_eq_self]

end Machine

/-- Straight-line access to the cache; C loops become `upTo`. -/
inductive Prog (index data value : Type) where
  | ret (outcome : value)
  | read (block : index) (next : data → Prog index data value)
  | write (block : index) (contents : data) (next : Prog index data value)
  | unpin (block : index) (next : Prog index data value)

namespace Prog

def bind : Prog index data value → (value → Prog index data result) → Prog index data result
  | .ret outcome, next => next outcome
  | .read block rest, next => .read block fun contents =>
    (rest contents).bind next
  | .write block contents rest, next => .write block contents (rest.bind next)
  | .unpin block rest, next => .unpin block (rest.bind next)

instance : Monad (Prog index data) where
  pure := .ret
  bind := .bind

def bread (block : index) : Prog index data data :=
  .read block .ret

def bwrite (block : index) (contents : data) : Prog index data Unit :=
  .write block contents (.ret ())

def bunpin (block : index) : Prog index data Unit :=
  .unpin block (.ret ())

/-- `for (tail = first; tail < first + count; tail++) body(tail)`. -/
def loop (body : Nat → Prog index data Unit) : Nat → Nat → Prog index data Unit
  | _, 0 => .ret ()
  | first, count + 1 => do
      body first
      loop body (first + 1) count

def upTo (count : Nat) (body : Nat → Prog index data Unit) : Prog index data Unit :=
  loop body 0 count

/-- One operation of a program.  The label is the disk write it issues. -/
inductive Step [DecidableEq index] :
    Prog index data value × Machine index data → Option (index × data) →
      Prog index data value × Machine index data → Prop
  | read : Step (.read block next, machine) none (next (machine.buf block), machine)
  | write : Step (.write block contents next, machine)
      (some (block, contents)) (next, machine.write block contents)
  | unpin : Step (.unpin block next, machine) none (next, machine.unpin block)

section WeakestPrecondition

variable [DecidableEq index]
variable (observe : ghost → index → data → ghost)
variable (always : ghost → Machine index data → Prop)

/-- Every point of the program, the first and the last included, satisfies
`always`, and the last one `post`.  The ghost value sees each disk write. -/
def wp : Prog index data value → (value → ghost → Machine index data → Prop) →
    ghost → Machine index data → Prop
  | .ret outcome, post, seen, machine =>
    always seen machine ∧ post outcome seen machine
  | .read block next, post, seen, machine =>
    always seen machine ∧ wp (next (machine.buf block)) post seen machine
  | .write block contents next, post, seen, machine =>
    always seen machine ∧ wp next post (observe seen block contents) (machine.write block contents)
  | .unpin block next, post, seen, machine =>
    always seen machine ∧ wp next post seen (machine.unpin block)

variable {observe always}

theorem wp_always {post : value → ghost → Machine index data → Prop}
    (holds : wp observe always program post seen machine) : always seen machine := by
  cases program <;> exact holds.1

/-- The ghost value after a step with the given label. -/
def observed (observe : ghost → index → data → ghost) (seen : ghost) : Option (index × data) → ghost
  | none => seen
  | some (block, contents) => observe seen block contents

theorem wp_step {post : value → ghost → Machine index data → Prop}
    (holds : wp observe always program post seen machine)
    (taken : Step (program, machine) label (program', machine')) :
    wp observe always program' post (observed observe seen label) machine' := by
  cases taken <;> exact holds.2

theorem wp_mono {post post' : value → ghost → Machine index data → Prop}
    (weaker : ∀ outcome seen machine, post outcome seen machine → post' outcome seen machine)
    (holds : wp observe always program post seen machine) :
    wp observe always program post' seen machine := by
  induction program generalizing seen machine with
  | ret outcome => exact ⟨holds.1, weaker _ _ _ holds.2⟩
  | read block next induction => exact ⟨holds.1, induction _ holds.2⟩
  | write block contents next induction => exact ⟨holds.1, induction holds.2⟩
  | unpin block next induction => exact ⟨holds.1, induction holds.2⟩

theorem wp_bind {post : result → ghost → Machine index data → Prop}
    (holds : wp observe always program (fun outcome => wp observe always (next outcome) post) seen
      machine) : wp observe always (program >>= next) post seen machine := by
  induction program generalizing seen machine with
  | ret outcome => exact holds.2
  | read block rest induction => exact ⟨holds.1, induction _ holds.2⟩
  | write block contents rest induction => exact ⟨holds.1, induction holds.2⟩
  | unpin block rest induction => exact ⟨holds.1, induction holds.2⟩

theorem wp_pure {post : value → ghost → Machine index data → Prop} (holds : always seen machine)
    (finish : post outcome seen machine) : wp observe always (pure outcome) post seen machine :=
  ⟨holds, finish⟩

theorem wp_bread {post : data → ghost → Machine index data → Prop} (holds : always seen machine)
    (finish : post (machine.buf block) seen machine) :
    wp observe always (bread block) post seen machine :=
  ⟨holds, holds, finish⟩

theorem wp_bwrite {post : Unit → ghost → Machine index data → Prop} (before : always seen machine)
    (after : always (observe seen block contents) (machine.write block contents))
    (finish : post () (observe seen block contents) (machine.write block contents)) :
    wp observe always (bwrite block contents) post seen machine :=
  ⟨before, after, finish⟩

theorem wp_bunpin {post : Unit → ghost → Machine index data → Prop} (before : always seen machine)
    (after : always seen (machine.unpin block)) (finish : post () seen (machine.unpin block)) :
    wp observe always (bunpin block) post seen machine :=
  ⟨before, after, finish⟩

/-- The loop rule: an invariant indexed by the loop counter. -/
theorem wp_loop {invariant : Nat → ghost → Machine index data → Prop}
    (sound : ∀ tail seen machine, invariant tail seen machine → always seen machine)
    (preserved : ∀ tail, first ≤ tail → tail < first + count → ∀ seen machine,
      invariant tail seen machine → wp observe always (body tail) (fun _ => invariant (tail + 1))
      seen machine) (initial : invariant first seen machine) :
    wp observe always (loop body first count) (fun _ => invariant (first + count)) seen machine
      := by
  induction count generalizing first seen machine with
  | zero => exact ⟨sound _ _ _ initial, initial⟩
  | succ count induction =>
    have next := preserved first (Nat.le_refl _) (by omega) seen machine initial
    apply wp_bind
    refine wp_mono ?_ next
    intro _ seen' machine' holds
    have rest := induction (fun tail lower upper => preserved tail (by omega) (by omega)) holds
    rwa [Nat.add_assoc, Nat.add_comm 1 count] at rest

theorem wp_upTo (invariant : Nat → ghost → Machine index data → Prop)
    (sound : ∀ tail seen machine, invariant tail seen machine → always seen machine)
    (preserved : ∀ tail, tail < count → ∀ seen machine, invariant tail seen machine →
      wp observe always (body tail) (fun _ => invariant (tail + 1)) seen machine)
    (initial : invariant 0 seen machine) :
    wp observe always (upTo count body) (fun _ => invariant count) seen machine := by
  have rule : wp observe always (upTo count body) (fun _ => invariant (0 + count)) seen machine :=
    wp_loop sound (fun tail _ upper => preserved tail (by omega)) initial
  rwa [Nat.zero_add] at rule

end WeakestPrecondition

end Prog

end DiskProgram
