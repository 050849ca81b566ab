import Xv6Lottery.Console.Code
import Xv6Lottery.Lib.RingBuffer

/-! The bytes of the input buffer, and the line that consoleintr() edits. -/

namespace Xv6Lottery.Console

/-- The input as a user sees it: what is committed, and what can still be
erased. -/
structure Line where
  committed : List UInt8
  pending : List UInt8

def Line.edit (line : Line) : Key → Line
  | .char c => { line with pending := line.pending ++ [c] }
  | .commit => ⟨line.committed ++ line.pending, []⟩
  | .erase => { line with pending := line.pending.dropLast }
  | .kill => { line with pending := line.pending.rdropWhile (· ≠ newline) }

def lineOf (keys : List Key) : Line := keys.foldl Line.edit ⟨[], []⟩

theorem lineOf_append (keys : List Key) (key : Key) :
    lineOf (keys ++ [key]) = (lineOf keys).edit key := by
  rw [lineOf, List.foldl_append]
  rfl

theorem divides : inputBufSize ∣ 2 ^ 32 := by decide

namespace Cons

/-- The bytes from `cons.r` to `cons.w` and from there to `cons.e`. -/
structure Between (cons : Cons) (ready pending : List UInt8) : Prop where
  ring : RingBuffer.Represents (2 ^ 32) cons.buf cons.r.toNat cons.e.toNat (ready ++ pending)
  write : cons.w.toNat = (cons.r.toNat + ready.length) % 2 ^ 32

/-- And a full buffer can be read to its end. -/
structure Holds (cons : Cons) (ready pending : List UInt8) : Prop
    extends Between cons ready pending where
  full : (ready ++ pending).length = inputBufSize → pending = []

namespace Between

variable {cons : Cons} {ready pending : List UInt8} {c : UInt8}

section

variable (between : cons.Between ready pending)

include between

theorem room : ready.length + pending.length ≤ 128 := by
  have room := between.ring.room
  rw [List.length_append] at room
  exact room

theorem edit_toNat : cons.e.toNat = (cons.r.toNat + (ready.length + pending.length)) % 2 ^ 32 := by
  rw [between.ring.last_eq, List.length_append]

theorem size_toNat : (cons.e - cons.r).toNat = ready.length + pending.length := by
  have small := cons.r.toNat_lt
  have room := between.room
  have last := between.edit_toNat
  rw [UInt32.toNat_sub]
  omega

theorem ready_toNat : (cons.w - cons.r).toNat = ready.length := by
  have small := cons.r.toNat_lt
  have room := between.room
  have last := between.write
  rw [UInt32.toNat_sub]
  omega

theorem pending_toNat : (cons.e - cons.w).toNat = pending.length := by
  have small := cons.r.toNat_lt
  have room := between.room
  have last := between.write
  have final := between.edit_toNat
  rw [UInt32.toNat_sub]
  omega

theorem ready_eq : RingBuffer.contents cons.buf cons.r.toNat (cons.w - cons.r).toNat = ready := by
  rw [between.ready_toNat]
  exact (between.ring.split divides).1.contents_eq

theorem pending_eq :
    RingBuffer.contents cons.buf cons.w.toNat (cons.e - cons.w).toNat = pending := by
  rw [between.pending_toNat, between.write]
  exact (between.ring.split divides).2.contents_eq

theorem empty_iff : cons.r = cons.w ↔ ready = [] := by
  have small := cons.r.toNat_lt
  have room := between.room
  have last := between.write
  rw [← UInt32.toNat_inj, ← List.length_eq_zero_iff]
  omega

theorem idle_iff : cons.e = cons.w ↔ pending = [] := by
  have small := cons.r.toNat_lt
  have room := between.room
  have last := between.write
  have final := between.edit_toNat
  rw [← UInt32.toNat_inj, ← List.length_eq_zero_iff]
  omega

theorem room_iff :
    cons.e - cons.r < UInt32.ofNat inputBufSize ↔ ready.length + pending.length < inputBufSize := by
  rw [UInt32.lt_iff_toNat_lt, between.size_toNat]
  rfl

theorem full_iff :
    cons.e - cons.r = UInt32.ofNat inputBufSize ↔ ready.length + pending.length = inputBufSize := by
  rw [← UInt32.toNat_inj, between.size_toNat]
  rfl

theorem commit : ({ cons with w := cons.e } : Cons).Between (ready ++ pending) [] where
  ring := by
    rw [List.append_nil]
    exact between.ring
  write := between.ring.last_eq

theorem store (space : ready.length + pending.length < inputBufSize) (c : Int) :
    (cons.store c).Between ready (pending ++ [UInt8.ofInt c]) where
  ring := by
    have counter : (cons.e + 1).toNat = (cons.e.toNat + 1) % 2 ^ 32 :=
      UInt32.toNat_add ..
    rw [← List.length_append] at space
    rw [← List.append_assoc]
    change RingBuffer.Represents _ _ _ (cons.e + 1).toNat _
    rw [counter]
    exact (between.ring.write divides space _).push divides space (Function.update_self ..)
  write := between.write

end

section Last

variable (between : cons.Between ready (pending ++ [c]))

include between

theorem before_toNat :
    (cons.e - 1).toNat = (cons.r.toNat + (ready ++ pending).length) % 2 ^ 32 := by
  have small := cons.r.toNat_lt
  have unit : (1 : UInt32).toNat = 1 := rfl
  have final := between.edit_toNat
  rw [List.length_append, List.length_singleton] at final
  rw [UInt32.toNat_sub, unit, List.length_append]
  omega

theorem last_cell : cons.buf (cell (cons.e - 1)) = c := by
  have ring := between.ring
  rw [← List.append_assoc] at ring
  have back := (ring.split divides).2.front
  rw [cell, between.before_toNat]
  exact back

theorem erase : cons.erase.Between ready pending where
  ring := by
    have ring := between.ring
    rw [← List.append_assoc] at ring
    have front := (ring.split divides).1
    rw [← between.before_toNat] at front
    exact front
  write := between.write

end Last

theorem killLine (between : cons.Between ready pending) (enough : pending.length ≤ rounds) :
    (cons.killLine rounds).Between ready (pending.rdropWhile (· ≠ newline)) := by
  -- by induction on what can be erased, from its end
  induction pending using List.reverseRecOn generalizing cons rounds with
  | nil =>
    have idle := between.idle_iff.mpr rfl
    cases rounds with
    | zero => exact between
    | succ rounds =>
      rw [Cons.killLine, if_neg fun goes => goes.1 idle]
      exact between
  | append_singleton pending c induction =>
    rw [List.length_append, List.length_singleton] at enough
    obtain ⟨rest, rfl⟩ : ∃ rest, rounds = rest + 1 :=
      Nat.exists_eq_succ_of_ne_zero (by omega)
    have busy : cons.e ≠ cons.w := fun idle =>
      List.append_ne_nil_of_right_ne_nil pending (List.cons_ne_nil c []) (between.idle_iff.mp idle)
    rw [Cons.killLine, between.last_cell]
    by_cases stop : c = newline
    · rw [if_neg fun goes => goes.2 stop, List.rdropWhile_concat_neg _ _ _ (by simp [stop])]
      exact between
    · rw [if_pos ⟨busy, stop⟩, List.rdropWhile_concat_pos _ _ _ (by simp [stop])]
      exact induction between.erase (by omega)

end Between

end Cons

theorem consoleintr_taken (shared : Shared) (c : Int) :
    (consoleintr c shared).taken = shared.taken := by
  unfold consoleintr
  dsimp only
  repeat' split
  all_goals rfl

/-- The buffer has the end of the committed input that no call has taken, and
what can be erased. -/
structure Edited (shared : Shared) (ready pending : List UInt8) : Prop where
  holds : shared.cons.Holds ready pending
  line : lineOf shared.keys = ⟨shared.taken ++ ready, pending⟩

namespace Edited

variable {shared : Shared} {ready pending : List UInt8} (edited : Edited shared ready pending)

include edited

theorem shorten
    (between : cons.Between ready rest) (part : rest <+: pending)
    (edits : (lineOf shared.keys).edit key = { lineOf shared.keys with pending := rest }) :
    Edited { shared with cons := cons, keys := shared.keys ++ [key] } ready
      rest := by
  refine ⟨⟨between, fun full => ?_⟩, ?_⟩
  · have room := edited.holds.room
    have size : inputBufSize = 128 := rfl
    rw [List.length_append] at full
    have same := part.eq_of_length_le (by omega)
    refine same.trans (edited.holds.full ?_)
    rw [List.length_append, ← same, full]
  · rw [lineOf_append, edits, edited.line]

theorem erased :
    Edited { shared with
      cons := if shared.cons.e ≠ shared.cons.w then shared.cons.erase
        else shared.cons
      keys := shared.keys ++ [.erase] } ready pending.dropLast := by
  have edits : (lineOf shared.keys).edit .erase =
      { lineOf shared.keys with pending := pending.dropLast } := by
    rw [edited.line]
    rfl
  refine edited.shorten ?_ ?_ edits
  · rcases List.eq_nil_or_concat pending with rfl | ⟨front, c, rfl⟩
    · rw [if_neg (not_not.mpr (edited.holds.idle_iff.mpr rfl))]
      exact edited.holds.toBetween
    · have between := edited.holds.toBetween
      rw [List.concat_eq_append] at between ⊢
      rw [List.dropLast_concat, if_pos fun idle => by
        simpa using between.idle_iff.mp idle]
      exact between.erase
  · exact List.dropLast_prefix pending

theorem killed :
    Edited { shared with
      cons := shared.cons.killLine (shared.cons.e - shared.cons.w).toNat
      keys := shared.keys ++ [.kill] } ready
      (pending.rdropWhile (· ≠ newline)) := by
  have edits : (lineOf shared.keys).edit .kill = { lineOf shared.keys with
      pending := pending.rdropWhile (· ≠ newline) } := by
    rw [edited.line]
    rfl
  refine edited.shorten ?_ ?_ edits
  · exact edited.holds.killLine edited.holds.pending_toNat.ge
  · exact List.rdropWhile_prefix _ pending

theorem typed (c : Int) (space : ready.length + pending.length < inputBufSize)
    (ends : (shared.cons.store c).e - (shared.cons.store c).r ≠ UInt32.ofNat inputBufSize) :
    Edited { shared with
      cons := shared.cons.store c
      keys := shared.keys ++ [.char (UInt8.ofInt c)] } ready
      (pending ++ [UInt8.ofInt c]) := by
  have between := edited.holds.store space c
  refine ⟨⟨between, fun full => ?_⟩, ?_⟩
  · rw [List.length_append] at full
    exact absurd (between.full_iff.mpr full) ends
  · rw [lineOf_append, edited.line]
    rfl

theorem entered (c : Int) (space : ready.length + pending.length < inputBufSize) :
    Edited { shared with
      cons := { shared.cons.store c with w := (shared.cons.store c).e }
      keys := shared.keys ++ [.char (UInt8.ofInt c)] ++ [.commit] }
      (ready ++ (pending ++ [UInt8.ofInt c])) [] := by
  refine ⟨⟨(edited.holds.store space c).commit, fun _ => rfl⟩, ?_⟩
  rw [lineOf_append, lineOf_append, edited.line]
  simp only [Line.edit, List.append_assoc]

theorem interrupt (c : Int) : ∃ ready pending, Edited (consoleintr c shared) ready pending := by
  unfold consoleintr
  dsimp only
  split
  next => exact ⟨_, _, edited⟩
  next =>
    split
    next => exact ⟨_, _, edited.killed⟩
    next =>
      split
      next => exact ⟨_, _, edited.erased⟩
      next =>
        by_cases accepted : c ≠ 0 ∧ shared.cons.e - shared.cons.r < UInt32.ofNat inputBufSize
        · have space := edited.holds.room_iff.mp accepted.2
          rw [if_pos accepted]
          generalize (if c = ('\r'.toNat : Int) then ('\n'.toNat : Int)
            else c) = c
          split
          next => exact ⟨_, _, edited.entered c space⟩
          next goesOn =>
            exact ⟨_, _, edited.typed c space fun full =>
              goesOn (.inr (.inr full))⟩
        · rw [if_neg accepted]
          exact ⟨_, _, edited⟩

end Edited

theorem Cons.Holds.advance {shared : Shared} (holds : shared.cons.Holds (c :: rest) pending) :
    shared.cons.buf (cell shared.cons.r) = c ∧ (shared.advance c).cons.Holds rest pending := by
  have ring := holds.ring
  have counter : (shared.cons.r + 1).toNat =
      (shared.cons.r.toNat + 1) % 2 ^ 32 := UInt32.toNat_add ..
  refine ⟨ring.front, ⟨?_, ?_⟩, fun full => ?_⟩
  · change RingBuffer.Represents _ _ (shared.cons.r + 1).toNat _ _
    rw [counter]
    exact ring.pop divides
  · change shared.cons.w.toNat = ((shared.cons.r + 1).toNat + _) % _
    rw [counter, holds.write, List.length_cons]
    omega
  · have room := holds.room
    have size : inputBufSize = 128 := rfl
    rw [List.length_append] at full
    rw [List.length_cons] at room
    omega

/-- What a call does to the buffer until it sleeps or returns: it takes bytes
from the front of the committed ones. -/
structure Moves (shared : Shared) (reader : Reader) (ready pending bytes rest : List UInt8)
    (done : Shared × Reader × Status) : Prop where
  ready : ready = bytes ++ rest
  holds : done.1.cons.Holds rest pending
  keys : done.1.keys = shared.keys
  taken : done.1.taken = shared.taken ++ bytes
  reader : done.2.1.taken = reader.taken ++ bytes

section Moves

variable {shared : Shared} {reader : Reader} {ready pending : List UInt8} {status : Status}

theorem Moves.none (holds : shared.cons.Holds ready pending) :
    Moves shared reader ready pending [] ready (shared, reader, status) where
  ready := rfl
  holds := holds
  keys := rfl
  taken := (List.append_nil _).symm
  reader := (List.append_nil _).symm

theorem Moves.one (holds : (shared.advance c).cons.Holds rest pending)
    (takes : after.taken = reader.taken ++ [c]) :
    Moves shared reader (c :: rest) pending [c] rest (shared.advance c, after, status) where
  ready := rfl
  holds := holds
  keys := rfl
  taken := rfl
  reader := takes

theorem readLoop_moves (killed : Bool) (rounds : Nat) (reader : Reader)
    (holds : shared.cons.Holds ready pending) :
    ∃ bytes rest, Moves shared reader ready pending bytes rest
      (readLoop killed rounds reader shared) := by
  -- by induction on the rounds of the loop
  induction rounds generalizing shared reader ready with
  | zero => exact ⟨_, _, .none holds⟩
  | succ rounds induction =>
    unfold readLoop
    by_cases empty : shared.cons.r = shared.cons.w
    · rw [if_pos empty]
      exact ⟨_, _, .none holds⟩
    · have some : ready ≠ [] := fun none =>
        empty (holds.empty_iff.mpr none)
      obtain ⟨c, rest, rfl⟩ := List.exists_cons_of_ne_nil some
      obtain ⟨here, after⟩ := holds.advance
      rw [if_neg empty]
      dsimp only
      rw [here]
      split
      next =>
        split
        next => exact ⟨_, _, .none holds⟩
        next => exact ⟨_, _, .one after rfl⟩
      next =>
        split
        next =>
          split
          next => exact ⟨_, _, .one after rfl⟩
          next =>
            obtain ⟨bytes, rest, moves⟩ :=
              induction (reader.copied c) after
            refine ⟨c :: bytes, rest, ?_, moves.holds, moves.keys, ?_, ?_⟩
            · rw [moves.ready, List.cons_append]
            · rw [moves.taken, Shared.advance, List.append_assoc, List.singleton_append]
            · rw [moves.reader, Reader.copied, Reader.take,
                List.append_assoc, List.singleton_append]
        next => exact ⟨_, _, .one after rfl⟩

theorem Edited.moved (edited : Edited shared ready pending)
    (moves : Moves shared reader ready pending bytes rest done) : Edited done.1 rest pending where
  holds := moves.holds
  line := by
    rw [moves.keys, edited.line, moves.taken, moves.ready, List.append_assoc]

end Moves

end Xv6Lottery.Console
