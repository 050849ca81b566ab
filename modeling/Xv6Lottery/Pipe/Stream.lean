import Xv6Lottery.Lib.RingBuffer
import Xv6Lottery.Pipe.Code
import Xv6Lottery.Sleep.Assertions
import Xv6Lottery.Sleep.Execution

/-! A pipe is a FIFO byte stream. -/

namespace Xv6Lottery.Pipes

open Sleep Transition

namespace Pipe

def count (pipe : Pipe) : Nat := (pipe.nwrite - pipe.nread).toNat

def buffered (pipe : Pipe) : List UInt8 :=
  RingBuffer.contents pipe.data pipe.nread.toNat pipe.count

def Holds (pipe : Pipe) (bytes : List UInt8) : Prop :=
  RingBuffer.Represents (2 ^ 32) pipe.data pipe.nread.toNat pipe.nwrite.toNat bytes

theorem divides : pipesize ∣ 2 ^ 32 := by decide

namespace Holds

variable {pipe : Pipe} {bytes : List UInt8} (holds : pipe.Holds bytes)

include holds

theorem count_eq : pipe.count = bytes.length := by
  have small := pipe.nread.toNat_lt
  have room : bytes.length ≤ 512 := holds.room
  have last := holds.last_eq
  have wraps : pipe.count = (2 ^ 32 - pipe.nread.toNat + pipe.nwrite.toNat) % 2 ^ 32 :=
    UInt32.toNat_sub ..
  omega

theorem buffered_eq : pipe.buffered = bytes := by
  rw [buffered, holds.count_eq]
  exact holds.contents_eq

theorem empty_iff : pipe.Empty ↔ bytes = [] := by
  have wide : pipesize < 2 ^ 32 := by decide
  rw [Empty, ← UInt32.toNat_inj]
  exact holds.nil_iff pipe.nread.toNat_lt wide

theorem full_iff : pipe.Full ↔ bytes.length = pipesize := by
  have room : bytes.length ≤ 512 := holds.room
  have last := holds.last_eq
  have size : (UInt32.ofNat pipesize).toNat = 512 := rfl
  rw [Full, ← UInt32.toNat_inj, UInt32.toNat_add, size, last]
  unfold pipesize
  omega

theorem store (room : ¬pipe.Full) (ch : UInt8) : (pipe.store ch).Holds (bytes ++ [ch]) := by
  have space : bytes.length < pipesize :=
    lt_of_le_of_ne holds.room fun full => room (holds.full_iff.mpr full)
  have counter : (pipe.nwrite + 1).toNat = (pipe.nwrite.toNat + 1) % 2 ^ 32 := UInt32.toNat_add ..
  unfold Holds
  change RingBuffer.Represents _ _ _ (pipe.nwrite + 1).toNat _
  rw [counter]
  exact (RingBuffer.Represents.write holds divides space ch).push divides
    space (Function.update_self ..)

theorem advance (some : ¬pipe.Empty) :
    ∃ rest, bytes = pipe.next :: rest ∧ pipe.advance.Holds rest := by
  have counter : (pipe.nread + 1).toNat = (pipe.nread.toNat + 1) % 2 ^ 32 := UInt32.toNat_add ..
  cases bytes with
  | nil => exact (some (holds.empty_iff.mpr rfl)).elim
  | cons byte rest =>
    refine ⟨rest, ?_, ?_⟩
    · rw [← RingBuffer.Represents.front holds]
      rfl
    · unfold Holds
      change RingBuffer.Represents _ _ (pipe.nread + 1).toNat _ _
      rw [counter]
      exact RingBuffer.Represents.pop holds divides

end Holds

end Pipe

/-- The bytes that the readers got and the bytes in the pipe are the bytes of
the writers. -/
def Fifo {Process : Type} (shared : Shared Process) : Prop :=
  ∃ bytes, shared.pipe.Holds bytes ∧ shared.returned ++ bytes = shared.accepted

theorem Fifo.alloc {Process : Type} (page : Fin pipesize → UInt8) (openBy : End → Process → Bool) :
    Fifo { pipe := .alloc page, openBy := openBy } :=
  ⟨[], .nil page (UInt32.toNat_lt _), rfl⟩

section Code

variable {Process : Type} {shared : Shared Process}

theorem Fifo.writeStep (fifo : Fifo shared) (n : Int) (source : Nat → Option UInt8) (i : Nat)
    (stored : Bool) : Fifo (writeStep n source i stored shared).1 := by
  unfold Pipes.writeStep
  split
  next => exact fifo
  next room =>
    split
    next => exact fifo
    next ch _ =>
      obtain ⟨bytes, holds, ordered⟩ := fifo
      refine ⟨bytes ++ [ch], holds.store room ch, ?_⟩
      rw [← List.append_assoc, ordered]

theorem Fifo.readStep (fifo : Fifo shared) (n : Int) (copies : ∀ i, sink i = true) (i : Nat) :
    Fifo (readStep n sink i shared).1 := by
  unfold Pipes.readStep
  rw [copies i]
  split
  next =>
    split
    next => exact fifo
    next some =>
      obtain ⟨bytes, holds, ordered⟩ := fifo
      obtain ⟨rest, rfl, after⟩ := holds.advance some
      refine ⟨rest, after, ?_⟩
      change shared.returned ++ [shared.pipe.next] ++ rest = shared.accepted
      rw [List.append_assoc, List.singleton_append, ordered]
  next => exact fifo

/-- The calls in which a process can be copy all their bytes. -/
def Point.Copies : Point → Prop
  | .entering call => call.Copies
  | .reading _ sink | .readTest _ sink | .readKilled _ sink
  | .readSleep _ sink | .readByte _ sink _ => ∀ i, sink i = true
  | _ => True

variable [FinEnum Process]

def streamed : Assertions Process (Shared Process) Point where
  shared := Fifo
  asserts _ point _ := point.Copies

theorem streamed_fits (point : Point) :
    streamed.Fits point (code Call.Copies point : Instr Process Unit Channel (Shared Process) Point)
      := by
  have fixed : ∀ {other : Process} {place : Point} {self : Process}
      {data changed : Shared Process}, other ≠ self → streamed.asserts other place data →
        streamed.asserts other place changed := fun _ copies => copies
  cases point with
  | home result =>
    rintro self data next _ _ ⟨call, copies, rfl⟩
    exact copies
  | entering call =>
    cases call with
    | pipewrite n source =>
      intro self data fifo _
      refine ⟨fifo, ?_, fixed⟩
      unfold argfd
      dsimp only
      split <;> trivial
    | piperead n sink =>
      intro self data fifo copies
      refine ⟨fifo, ?_, fixed⟩
      unfold argfd
      dsimp only
      split
      · exact copies
      · trivial
    | close side =>
      intro self data fifo _
      unfold fileclose
      split
      · refine ⟨fifo, ?_, fixed⟩
        dsimp only
        split <;> trivial
      · exact ⟨fifo, trivial, fixed⟩
    | kill pid => exact fun self data fifo _ => ⟨fifo, trivial, fixed⟩
  | writeTest n source i stored =>
    intro self data fifo _
    refine ⟨fifo, ?_, fixed⟩
    dsimp only
    split
    · split <;> trivial
    · trivial
  | writeKilled n source i stored =>
    intro self data answer _
    dsimp only
    split <;> trivial
  | writeByte n source i stored =>
    intro self data fifo _
    refine ⟨fifo.writeStep n source i stored, ?_, fixed⟩
    change (writeStep n source i stored data).2.Copies
    unfold writeStep
    split
    · trivial
    · split <;> trivial
  | readTest n sink =>
    intro self data fifo copies
    refine ⟨fifo, ?_, fixed⟩
    dsimp only
    split <;> exact copies
  | readKilled n sink =>
    intro self data answer copies
    dsimp only
    split
    · trivial
    · exact copies
  | readByte n sink i =>
    intro self data fifo copies
    refine ⟨fifo.readStep n copies i, ?_, fixed⟩
    change (readStep n sink i data).2.Copies
    unfold readStep
    rw [copies i]
    split
    · split
      · trivial
      · exact copies
    · trivial
  | closeFlag side =>
    intro self data fifo _
    cases side <;> exact ⟨fifo, trivial, fixed⟩
  | closeWake side => cases side <;> exact fun _ _ _ => trivial
  | closeTest => exact fun self data fifo _ => ⟨fifo, trivial, fixed⟩
  | closeLeave last => cases last <;> exact fun _ _ _ => trivial
  | freeing =>
    rintro self data next _ _ rfl
    trivial
  | reading n sink => exact fun _ _ copies => copies
  | readSleep n sink => exact fun _ _ copies => copies
  | killing pid => exact fun _ _ _ _ => trivial
  | _ => exact fun _ _ _ => trivial

end Code

namespace Passed

def pick : Point → Nat → Option Point
  | .home _, 0 => some (.entering (.pipewrite 2 fun i => some (.ofNat i)))
  | .home _, 1 => some (.entering (.piperead 1 fun _ => true))
  | _, _ => none

abbrev passes : Point → Instr (Fin 2) Unit Channel (Shared (Fin 2)) Point :=
  code Call.Copies

theorem pick_sound {options : Point → Prop} (found : passes point = .choose options)
    (picked : pick point choice = some next) : options next := by
  unfold pick at picked
  split at picked
  next =>
    cases found
    cases picked
    refine ⟨_, ?_, rfl⟩
    exact fun _ => rfl
  next =>
    cases found
    cases picked
    refine ⟨_, ?_, rfl⟩
    exact fun _ => rfl
  next => cases picked

def boot : Sleep.Machine (Fin 2) (Fin 2) Unit Channel (Shared (Fin 2)) Point where
  procs slot := ⟨.runnable, none, false, slot + 1⟩
  lock _ := none
  cpus _ := .idle
  threads _ := ⟨.code (.home 0), true⟩
  data := { pipe := .alloc fun _ => 5, openBy := fun _ _ => true }

def actions : List (Action (Fin 2) (Fin 2) Channel) :=
  [.dispatch 0 0, .resume 0, .dispatch 1 1, .resume 1] ++
    List.replicate 15 (.thread 0 0) ++ [.thread 1 1] ++ List.replicate 5 (.thread 1 0)

end Passed

end Xv6Lottery.Pipes
