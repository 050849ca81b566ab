import Mathlib.Logic.Relation
import Xv6Lottery.Lib.RingBuffer

/-! uart.c: the transmit buffer between uartputc() and the interrupt handler.
The device asserts its interrupt until THR is written or ISR is read. -/

namespace Xv6Lottery.Uart

open Function Relation

def uartTxBufSize : Nat := 32

instance : NeZero uartTxBufSize := ⟨by decide⟩

/-- What the holder of uart_tx_lock does next: it is at the test of
uartputc(), or at the top of the loop of uartstart(). -/
inductive Holder where
  | putting (c : UInt8)
  | starting

structure State where
  buf : Fin uartTxBufSize → UInt8 := fun _ => 0
  w : UInt64 := 0
  r : UInt64 := 0
  lock : Option Holder := none
  /-- The arguments of the calls of uartputc() that sleep, and of those that
  have been woken up. -/
  asleep : List UInt8 := []
  woken : List UInt8 := []
  /-- LSR_TX_IDLE is clear. -/
  busy : Bool := false
  pending : Bool := false
  /-- The bytes put in the buffer and those written to THR, in order. -/
  accepted : List UInt8 := []
  sent : List UInt8 := []

namespace State

def cell (counter : UInt64) : Fin uartTxBufSize := Fin.ofNat _ counter.toNat

def Full (state : State) : Prop := state.w = state.r + UInt64.ofNat uartTxBufSize

instance (state : State) : Decidable state.Full := inferInstanceAs (Decidable (_ = _))

def put (state : State) (c : UInt8) : State :=
  { state with
    buf := update state.buf (cell state.w) c
    w := state.w + 1
    lock := some .starting
    accepted := state.accepted ++ [c] }

/-- A round of uartstart() that sends a byte, with its wakeup(). -/
def send (state : State) : State :=
  { state with
    r := state.r + 1
    asleep := []
    woken := state.woken ++ state.asleep
    busy := true
    pending := false
    sent := state.sent ++ [state.buf (cell state.r)] }

end State

inductive Step : State → State → Prop
  | uartputc : state.lock = none → Step state { state with lock := some (.putting c) }
  | sleep : state.lock = some (.putting c) → state.Full →
      Step state { state with lock := none, asleep := c :: state.asleep }
  | regain : state.lock = none → c ∈ state.woken →
      Step state { state with lock := some (.putting c), woken := state.woken.erase c }
  | put : state.lock = some (.putting c) → ¬state.Full → Step state (state.put c)
  -- uartstart()
  | empty : state.lock = some .starting → state.w = state.r →
      Step state { state with lock := none, pending := false }
  | unready : state.lock = some .starting → state.w ≠ state.r → state.busy = true →
      Step state { state with lock := none }
  | send : state.lock = some .starting → state.w ≠ state.r → state.busy = false →
      Step state state.send
  | uartintr : state.lock = none → Step state { state with lock := some .starting }
  -- the device has sent its byte
  | ready : state.busy = true → Step state { state with busy := false, pending := true }
  -- it has no lock, and may have read LSR earlier
  | uartputcSync : Step state { state with busy := true, pending := false }

def State.Holds (state : State) : List UInt8 → Prop :=
  RingBuffer.Represents (2 ^ 64) state.buf state.r.toNat state.w.toNat

theorem divides : uartTxBufSize ∣ 2 ^ 64 := by decide

variable {state after : State}

theorem State.Holds.put (holds : state.Holds bytes) (room : ¬state.Full) (c : UInt8) :
    (state.put c).Holds (bytes ++ [c]) := by
  have space : bytes.length < uartTxBufSize := by
    refine lt_of_le_of_ne holds.room fun full => room ?_
    rw [State.Full, ← UInt64.toNat_inj, holds.last_eq, full, UInt64.toNat_add]
    rfl
  have counter : (state.w + 1).toNat = (state.w.toNat + 1) % 2 ^ 64 := UInt64.toNat_add ..
  have pushed := (holds.write divides space c).push divides space (update_self ..)
  rwa [← counter] at pushed

theorem State.Holds.send (holds : state.Holds bytes) (some : state.w ≠ state.r) :
    ∃ rest, bytes = state.buf (cell state.r) :: rest ∧ state.send.Holds rest := by
  cases bytes with
  | nil =>
    have same := (holds.nil_iff state.r.toNat_lt (by decide)).mpr rfl
    exact (some (UInt64.toNat_inj.mp same.symm)).elim
  | cons c rest =>
    have counter : (state.r + 1).toNat = (state.r.toNat + 1) % 2 ^ 64 := UInt64.toNat_add ..
    have popped := holds.pop divides
    rw [← counter] at popped
    exact ⟨rest, congrArg (· :: rest) holds.front.symm, popped⟩

structure Sound (state : State) : Prop where
  fifo : ∃ bytes, state.Holds bytes ∧ state.sent ++ bytes = state.accepted
  asleep : state.asleep ≠ [] → state.Full
  due : state.lock ≠ some .starting → state.w ≠ state.r →
    state.busy = true ∨ state.pending = true

theorem Sound.step (sound : Sound state) (taken : Step state after) : Sound after := by
  obtain ⟨⟨bytes, holds, ordered⟩, asleep, due⟩ := sound
  have fifo : ∃ bytes, state.Holds bytes ∧ state.sent ++ bytes = state.accepted :=
    ⟨bytes, holds, ordered⟩
  cases taken with
  | uartputc free | regain free =>
    exact ⟨fifo, asleep, fun _ => due (by rw [free]; nofun)⟩
  | sleep held full => exact ⟨fifo, fun _ => full, fun _ => due (by rw [held]; nofun)⟩
  | put held room =>
    refine ⟨⟨_, holds.put room _, ?_⟩, fun sleeps => (room (asleep sleeps)).elim, nofun⟩
    exact (List.append_assoc ..).symm.trans (congrArg (· ++ [_]) ordered)
  | empty held same => exact ⟨fifo, asleep, fun _ apart => (apart same).elim⟩
  | unready held _ busy => exact ⟨fifo, asleep, fun _ _ => .inl busy⟩
  | send held some =>
    obtain ⟨rest, rfl, popped⟩ := holds.send some
    refine ⟨⟨rest, popped, ?_⟩, fun sleeps => (sleeps rfl).elim, fun _ _ => .inl rfl⟩
    exact (List.append_assoc ..).trans ordered
  | uartintr => exact ⟨fifo, asleep, nofun⟩
  | ready => exact ⟨fifo, asleep, fun _ _ => .inr rfl⟩
  | uartputcSync => exact ⟨fifo, asleep, fun _ _ => .inl rfl⟩

theorem Sound.run (run : ReflTransGen Step {} state) : Sound state := by
  induction run with
  | refl =>
    have empty : ({} : State).Holds [] := .nil _ (by decide)
    exact ⟨⟨[], empty, rfl⟩, fun sleeps => (sleeps rfl).elim, fun _ apart => (apart rfl).elim⟩
  | tail _ taken sound => exact sound.step taken

/-- The bytes leave in the order in which uartputc() put them in the buffer. -/
theorem transmits_in_order (run : ReflTransGen Step {} state) :
    ∃ bytes, state.Holds bytes ∧ state.sent ++ bytes = state.accepted :=
  (Sound.run run).fifo

/-- With the lock free, calls of uartputc() sleep only while the buffer is
full, and a byte waits only while an interrupt is due. -/
theorem waits_for_interrupt (run : ReflTransGen Step {} state) (free : state.lock = none) :
    (state.asleep ≠ [] → state.Full) ∧
      (state.asleep ≠ [] ∨ state.w ≠ state.r → state.busy = true ∨ state.pending = true) := by
  obtain ⟨_, asleep, due⟩ := Sound.run run
  rw [free] at due
  refine ⟨asleep, fun waits => due nofun ?_⟩
  rcases waits with sleeps | some
  · rw [asleep sleeps, ne_eq, UInt64.add_eq_left]
    decide
  · exact some

def oneLeft : State :=
  { ({ lock := some (.putting 65), busy := true } : State).put 65 with lock := none }

theorem oneLeft_run : ReflTransGen Step {} oneLeft :=
  .tail (.tail (.tail (.tail .refl .uartputcSync) (.uartputc rfl)) (.put rfl (by decide)))
    (.unready rfl (by decide) rfl)

theorem transmits_oneLeft : ∃ bytes, oneLeft.Holds bytes ∧ [] ++ bytes = [65] :=
  transmits_in_order oneLeft_run

theorem oneLeft_waits : oneLeft.w ≠ oneLeft.r ∧ (oneLeft.busy = true ∨ oneLeft.pending = true) :=
  ⟨by decide, (waits_for_interrupt oneLeft_run rfl).2 (.inr (by decide))⟩

end Xv6Lottery.Uart
