import Xv6Lottery.Virtio.Protocol

/-! What virtio_disk_rw() can rely on, and runs that can be computed. -/

namespace Xv6Lottery.Virtio

open Transition

variable {Agent Buf : Type} [DecidableEq Agent] [DecidableEq Buf]
  {blockno : Buf → UInt32} {state after : State Agent Buf}

def State.Owns (state : State Agent Buf) (a : Agent) (i : Fin num) : Prop :=
  ∃ chain, (state.point a).chain = some chain ∧ i ∈ chain.toList

/-- The protocol between the driver and the device. -/
structure Orderly (blockno : Buf → UInt32) (state : State Agent Buf) : Prop where
  descriptors : ∀ i, state.disk.free i = true ∧ (∀ a, ¬state.Owns a i) ∨
      state.disk.free i = false ∧ ∃! a, state.Owns a i
  three : ∀ a chain, (state.point a).chain = some chain → chain.toList.Nodup
  /-- What the device finds from the head of a chain on. -/
  requests : ∀ a req chain ticket, (state.point a).wait = some (req, chain, ticket) →
      state.disk.request chain.head = some ⟨Disk.blkReq blockno req, req.b, !req.write⟩
  /-- The ring has the entries that the device has not taken. -/
  avail : RingBuffer.Represents (2 ^ 16) state.disk.avail.ring
    state.seen.toNat state.disk.avail.idx.toNat (state.issued.drop state.taken)
  /-- The ring has the entries that virtio_disk_intr() has not seen. -/
  used : RingBuffer.Represents (2 ^ 16) state.disk.used.ring
    state.disk.usedIdx.toNat state.disk.used.idx.toNat
    ((state.log.drop state.consumed).map fun entry => entry.head.toUInt32)
  /-- The device has completed the request of a call that returns. -/
  returns : ∀ a req ticket, state.point a = .leaving req ticket →
    ServedAs blockno state.log ticket req
  own : ∀ a b ticket, (state.point a).ticket = some ticket →
    (state.point b).ticket = some ticket → a = b
  calm : ∀ a why, state.point a ≠ .panic why

omit [DecidableEq Agent] [DecidableEq Buf] in
theorem Inv.descriptor (inv : Inv blockno state) (i : Fin num) :
    state.disk.free i = true ∧ (∀ a, ¬state.Owns a i) ∨ state.disk.free i = false ∧ ∃! a,
      state.Owns a i := by
  cases free : state.disk.free i with
  | true =>
    refine .inl ⟨rfl, fun a ⟨chain, held, member⟩ => ?_⟩
    cases free.symm.trans (inv.chains.used held member)
  | false =>
    obtain ⟨a, chain, held, member⟩ := inv.chains.owned free
    refine .inr ⟨rfl, a, ⟨chain, held, member⟩, ?_⟩
    rintro b ⟨other, theirs, shared⟩
    exact inv.chains.disjoint theirs held shared member

omit [DecidableEq Agent] [DecidableEq Buf] in
theorem Inv.orderly (inv : Inv blockno state) : Orderly blockno state where
  descriptors := inv.descriptor
  three := fun _ _ held => inv.chains.nodup held
  requests := fun a _ _ _ wait =>
    ((inv.fine a).formatted (Point.formatted_of_wait wait)).request_eq
  avail := inv.avail
  used := inv.used
  returns := fun a req ticket here => by
    refine (inv.fine a).done ?_
    rw [here]
    rfl
  own := fun _ _ _ first second => inv.points.unique first second
  calm := inv.points.calm

theorem virtio_protocol_orderly {start : State Agent Buf} {events : List (Event Agent Buf)}
    (boot : start.Boot) (run : Run (State.Step blockno) start events state) :
    Orderly blockno state :=
  (Inv.run boot run).orderly

/-! Runs that can be computed. -/

namespace State

variable [Fintype Agent]

def next (blockno : Buf → UInt32) (state : State Agent Buf) :
    Event Agent Buf → Option (State Agent Buf)
  | .call a req =>
    match state.point a with
    | .home =>
      if ∀ other, ∀ held ∈ (state.point other).req, held.b ≠ req.b then
        some (state.set a (.entering req))
      else none
    | _ => none
  | .intr a =>
    match state.point a with
    | .home => some (state.set a .intrEntering)
    | _ => none
  | .go a => state.go blockno a
  | .take =>
    if state.seen ≠ state.disk.avail.idx then
      some { state with
        seen := state.seen + 1
        working := state.working ++ [(state.disk.avail.ring (slot state.seen), state.taken)]
        taken := state.taken + 1 }
    else none
  | .complete k =>
    if small : k < state.working.length then
      some { state with
        disk := state.disk.complete state.working[k].1
        working := state.working.take k ++ state.working.drop (k + 1)
        log := state.log ++ [⟨state.working[k].2, state.working[k].1,
          state.disk.request state.working[k].1.toNat⟩] }
    else none

theorem next_step (done : state.next blockno event = some after) :
    Step blockno state event after := by
  cases event with
  | call a req =>
    simp only [next] at done
    split at done
    next home =>
      split at done
      next fresh =>
        cases done
        exact .call home fun other held theirs =>
          fresh other held theirs
      next => cases done
    next => cases done
  | intr a =>
    simp only [next] at done
    split at done
    next home =>
      cases done
      exact .intr home
    next => cases done
  | go a => exact .go done
  | take =>
    simp only [next] at done
    split at done
    next more =>
      cases done
      exact .take more
    next => cases done
  | complete k =>
    simp only [next] at done
    split at done
    next small =>
      cases done
      have split : state.working = state.working.take k ++
          state.working[k] :: state.working.drop (k + 1) := by
        rw [← List.drop_eq_getElem_cons, List.take_append_drop]
      have step : Step blockno state (.complete _) _ := .complete split
      rw [List.length_take, Nat.min_eq_left small.le] at step
      exact step
    next => cases done

end State

def fresh : State (Fin 3) (Fin 2) where
  lock := none
  point := fun _ => .home
  disk := {
    desc := fun _ => ⟨.null, 0, 0, 0⟩
    avail := ⟨0, fun _ => 0⟩
    used := ⟨0, fun _ => 0⟩
    free := fun _ => true
    usedIdx := 0
    info := fun _ => ⟨none, 0⟩
    ops := fun _ => ⟨0, 0, 0⟩ }
  busy := fun _ => false
  seen := 0
  working := []
  issued := []
  taken := 0
  log := []
  consumed := 0

theorem fresh_boot : fresh.Boot :=
  ⟨rfl, fun _ => rfl, fun _ => rfl, rfl, rfl, rfl, rfl, rfl, rfl, rfl, rfl, rfl⟩

def crossing : List (Event (Fin 3) (Fin 2)) :=
  [.call 0 ⟨0, true⟩, .call 1 ⟨1, false⟩, .go 0, .go 0, .go 0, .go 0, .go 0,
    .go 1, .go 1, .go 1, .go 1, .go 1, .take, .take, .complete 1, .intr 2,
    .go 2, .go 2, .go 2, .go 2, .go 2, .go 1, .go 1, .go 1]

theorem virtio_protocol_orderly_crossing :
    ∃ state, Run (State.Step fun b => b.val.toUInt32) fresh crossing state ∧ state.point 1 =
      .leaving ⟨1, false⟩ 1 ∧ Orderly (fun b => b.val.toUInt32) state := by
  have played : ((exec (State.next fun b => b.val.toUInt32) fresh
      crossing).map fun state => state.point 1) = some (.leaving ⟨1, false⟩ 1) := by
    decide +kernel
  obtain ⟨state, done, here⟩ := Option.map_eq_some_iff.mp played
  have run : Run (State.Step fun b => b.val.toUInt32) fresh crossing state :=
    Run.exec State.next_step done
  exact ⟨state, run, here, virtio_protocol_orderly fresh_boot run⟩

end Xv6Lottery.Virtio
