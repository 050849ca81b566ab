import Xv6Lottery.Console.Discipline
import Xv6Lottery.Pipe.Stream

/-! Reads into memory of which only a part is writable. piperead() and
consoleread() take a byte out of the buffer before copyout() is asked to store
it. -/

namespace Xv6Lottery

namespace Pipes

variable {Process : Type}

/-- The copying loop of piperead(): the state after it, and `i`. -/
def copyFrom (n : Int) (sink : Nat → Bool) : Nat → Nat → Shared Process → Shared Process × Nat
  | 0, i, shared => (shared, i)
  | rounds + 1, i, shared =>
    match readStep n sink i shared with
    | (next, .readByte _ _ j) => copyFrom n sink rounds j next
    | (next, _) => (next, i)

/-- piperead() by a process that finds the pipe in these states, and itself
killed or not, when it gets the lock: the state in which it stops waiting, the
state after the call and the result, if any. -/
def piperead (n : Int) (sink : Nat → Bool) : List (Shared Process × Bool) →
      Option (Shared Process × Shared Process × Int)
  | [] => none
  | (shared, killed) :: rest =>
    if shared.pipe.Empty ∧ shared.pipe.writeopen = true then
      if killed then some (shared, shared, -1)
      else piperead n sink rest
    else
      let (after, i) := copyFrom n sink (n.toNat + 1) 0 shared
      some (shared, after, i)

structure Copies (sink : Nat → Bool) (i limit : Nat)
    (shared : Shared Process) (bytes gone rest stored : List UInt8)
    (done : Shared Process × Nat) : Prop where
  holds : done.1.pipe.Holds rest
  bytes : bytes = gone ++ rest
  returned : done.1.returned = shared.returned ++ stored
  count : done.2 = i + stored.length
  whole : (∀ k < limit, sink (i + k) = true) → gone = stored
  lost : (∃ k < limit, sink (i + k) = false) → gone ≠ stored

section Copies

variable {n : Int} {sink : Nat → Bool} {rounds i : Nat}
  {shared : Shared Process} {bytes : List UInt8} (holds : shared.pipe.Holds bytes)

include holds

theorem Copies.nothing (none : limit = 0) :
    Copies sink i limit shared bytes [] bytes [] (shared, i) where
  holds := holds
  bytes := rfl
  returned := (List.append_nil _).symm
  count := rfl
  whole := fun _ => rfl
  lost := fun ⟨k, less, _⟩ => by omega

theorem copyFrom_spec (enough : n.toNat < rounds + i) :
    ∃ gone rest stored, Copies sink i (min (n.toNat - i) bytes.length) shared bytes gone rest stored
      (copyFrom n sink rounds i shared) := by
  -- by induction on the rounds; the bytes before the i-th one are gone
  induction rounds generalizing i shared bytes with
  | zero => exact ⟨_, _, _, .nothing holds (by omega)⟩
  | succ rounds induction =>
    unfold copyFrom readStep
    by_cases more : (i : Int) < n
    · rw [if_pos more]
      by_cases empty : shared.pipe.Empty
      · rw [if_pos empty]
        refine ⟨_, _, _, .nothing holds ?_⟩
        rw [holds.empty_iff.mp empty, List.length_nil, Nat.min_zero]
      · rw [if_neg empty]
        obtain ⟨left, rfl, after⟩ := holds.advance empty
        have limit : min (n.toNat - i) (shared.pipe.next :: left).length =
            min (n.toNat - (i + 1)) left.length + 1 := by
          rw [List.length_cons]
          omega
        rw [limit]
        by_cases writable : sink i = true
        · rw [if_pos writable]
          dsimp only
          obtain ⟨gone, rest, stored, copies⟩ :=
            @induction (i + 1) { shared with
              pipe := shared.pipe.advance
              returned := shared.returned ++ [shared.pipe.next] } left
              after (by omega)
          refine ⟨shared.pipe.next :: gone, rest,
            shared.pipe.next :: stored, copies.holds, ?_, ?_, ?_, ?_, ?_⟩
          · rw [copies.bytes, List.cons_append]
          · rw [copies.returned, List.append_assoc, List.singleton_append]
          · rw [copies.count, List.length_cons]
            omega
          · intro all
            rw [copies.whole fun k less => ?_]
            rw [Nat.add_right_comm]
            exact all (k + 1) (Nat.succ_lt_succ less)
          · rintro ⟨_ | k, less, fails⟩ same
            · cases writable.symm.trans fails
            · refine copies.lost ⟨k, Nat.lt_of_succ_lt_succ less, ?_⟩ (List.cons.inj same).2
              rw [Nat.add_right_comm]
              exact fails
        · rw [if_neg writable]
          refine ⟨[shared.pipe.next], left, [], after, rfl,
            (List.append_nil _).symm, rfl, fun all => ?_, fun _ => nofun⟩
          exact absurd (all 0 (Nat.succ_pos _)) writable
    · rw [if_neg more]
      exact ⟨_, _, _, .nothing holds (by omega)⟩

end Copies

theorem piperead_spec {before after : Shared Process}
    (valid : ∀ turn ∈ turns, ∃ bytes, turn.1.pipe.Holds bytes)
    (done : piperead n sink turns = some (before, after, result)) :
    ∃ gone stored, before.pipe.buffered = gone ++ after.pipe.buffered ∧ after.returned =
      before.returned ++ stored ∧ (gone = stored ∧ stored.length = result.toNat ↔ ∀ i <
        min n.toNat before.pipe.buffered.length, sink i = true) := by
  induction turns with
  | nil => cases done
  | cons turn rest induction =>
    obtain ⟨shared, killed⟩ := turn
    obtain ⟨bytes, holds⟩ := valid _ List.mem_cons_self
    unfold piperead at done
    by_cases waits : shared.pipe.Empty ∧ shared.pipe.writeopen = true
    · rw [if_pos waits] at done
      cases killed with
      | true =>
        cases done
        refine ⟨[], [], rfl, (List.append_nil _).symm, iff_of_true ⟨rfl, rfl⟩ fun i less => ?_⟩
        rw [holds.buffered_eq, holds.empty_iff.mp waits.1, List.length_nil, Nat.min_zero] at less
        exact absurd less (Nat.not_lt_zero i)
      | false =>
        exact induction (fun turn member =>
          valid turn (List.mem_cons_of_mem _ member)) done
    · obtain ⟨gone, left, stored, copies⟩ := @copyFrom_spec Process n sink
        (n.toNat + 1) 0 shared bytes holds (by omega)
      rw [if_neg waits] at done
      generalize copyFrom n sink (n.toNat + 1) 0 shared = ended at done copies
      obtain ⟨final, i⟩ := ended
      cases done
      refine ⟨gone, stored, ?_, copies.returned, ?_⟩
      · rw [holds.buffered_eq, copies.holds.buffered_eq]
        exact copies.bytes
      · rw [show i = 0 + stored.length from copies.count,
          holds.buffered_eq, Int.toNat_natCast, Nat.zero_add]
        refine ⟨fun exactly i less => ?_, fun all => ⟨?_, rfl⟩⟩
        · by_contra fails
          refine copies.lost ⟨i, less, ?_⟩ exactly.1
          rw [Nat.zero_add]
          exact Bool.eq_false_of_not_eq_true fails
        · refine copies.whole fun k less => ?_
          rw [Nat.zero_add]
          exact all k less

end Pipes

namespace Console

/-- consoleread() by a process that finds the console in these states, and
itself killed or not, when it gets the lock. No result if it still waits. -/
def readTurns (reader : Reader) : List (Shared × Bool) → Reader × Option Int
  | [] => (reader, none)
  | (shared, killed) :: rest =>
    match reader.go killed shared with
    | (_, next, .sleeps) => readTurns next rest
    | (_, next, .returns result) => (next, some result)

def consoleread (n : Int) (sink : Nat → Bool)
    (turns : List (Shared × Bool)) : Reader × Option Int :=
  readTurns (.enter n sink) turns

theorem readLoop_killed (rounds : Nat) (reader : Reader) (shared : Shared) :
    readLoop true rounds reader shared = match readLoop false rounds reader shared with
      | (after, next, .sleeps) => (after, next, .returns (-1))
      | done => done := by
  induction rounds generalizing reader shared with
  | zero => rfl
  | succ rounds induction =>
    unfold readLoop
    by_cases empty : shared.cons.r = shared.cons.w
    · simp only [if_pos empty]
      rfl
    · simp only [if_neg empty]
      generalize shared.cons.buf (cell shared.cons.r) = c
      by_cases isEof : c = eof
      · simp only [if_pos isEof]
        split <;> rfl
      · simp only [if_neg isEof]
        split
        next =>
          split
          next => rfl
          next => exact induction _ _
        next => rfl

structure Reader.Even (reader : Reader) : Prop where
  stored : reader.stored = reader.taken
  eof : eof ∉ reader.taken

theorem Reader.Even.copied {reader : Reader} (even : reader.Even) (other : c ≠ Console.eof) :
    (reader.copied c).Even where
  stored := by
    change reader.stored ++ [c] = reader.taken ++ [c]
    rw [even.stored]
  eof := by
    change Console.eof ∉ reader.taken ++ [c]
    rw [List.mem_append, List.mem_singleton, not_or]
    exact ⟨even.eof, other.symm⟩

def Reader.free (reader : Reader) : Reader :=
  { reader with sink := fun _ => true }

def Reader.Lost (reader : Reader) : Prop :=
  ∃ c, c ≠ eof ∧ eof ∉ reader.stored ∧ reader.taken = reader.stored ++ [c]

/-- The call goes as it does with all memory writable, or it loses a byte at
the first address that is not. -/
inductive Follows (reader : Reader) (done ideal : Shared × Reader × Status) : Prop
  | same : (∀ i, reader.stored.length ≤ i → i < ideal.2.1.stored.length →
        reader.sink i = true) → done.1 = ideal.1 →
      ideal.2.1 = done.2.1.free → done.2.1.sink = reader.sink →
      done.2.2 = ideal.2.2 → Follows reader done ideal
  | lost : reader.stored.length ≤ i → i < ideal.2.1.stored.length →
      reader.sink i = false → done.2.1.Lost → done.2.2 = .returns result → Follows reader done ideal

theorem stored_le (killed : Bool) (rounds : Nat) (reader : Reader) (shared : Shared) :
    reader.stored.length ≤ (readLoop killed rounds reader shared).2.1.stored.length := by
  induction rounds generalizing reader shared with
  | zero => exact le_rfl
  | succ rounds induction =>
    have longer : ∀ c, reader.stored.length ≤ (reader.copied c).stored.length := fun c => by
      rw [Reader.copied, List.length_append]
      exact Nat.le_add_right ..
    unfold readLoop
    dsimp only
    split
    next => exact le_rfl
    next =>
      split
      next => split <;> exact le_rfl
      next =>
        split
        next =>
          split
          next => exact longer _
          next => exact (longer _).trans (induction _ _)
        next => exact le_rfl

theorem readLoop_follows (killed : Bool) (rounds : Nat) {reader : Reader} (even : reader.Even)
    (shared : Shared) :
    Follows reader (readLoop killed rounds reader shared)
      (readLoop killed rounds reader.free shared) := by
  have none : ∀ i, reader.stored.length ≤ i → i < reader.stored.length →
      reader.sink i = true := fun i low high => by omega
  -- by induction on the rounds; so far every byte could be stored
  induction rounds generalizing reader shared with
  | zero => exact .same none rfl rfl rfl rfl
  | succ rounds induction =>
    unfold readLoop
    by_cases empty : shared.cons.r = shared.cons.w
    · simp only [if_pos empty]
      exact .same none rfl rfl rfl rfl
    · simp only [if_neg empty]
      generalize shared.cons.buf (cell shared.cons.r) = c
      by_cases isEof : c = eof
      · simp only [if_pos isEof]
        change Follows reader (ite (UInt32.ofInt reader.n < reader.target) _ _)
          (ite (UInt32.ofInt reader.n < reader.target) _ _)
        split
        next => exact .same none rfl rfl rfl rfl
        next => exact .same none rfl rfl rfl rfl
      · simp only [if_neg isEof]
        have further : (reader.copied c).stored.length =
            reader.stored.length + 1 := List.length_append
        have free : reader.free.copied c = (reader.copied c).free := rfl
        have allowed : reader.free.sink reader.free.stored.length =
            true := rfl
        rw [if_pos allowed, free]
        by_cases writable : reader.sink reader.stored.length = true
        · rw [if_pos writable]
          split
          next =>
            refine .same (fun i low high => ?_) rfl rfl rfl rfl
            change i < (reader.copied c).stored.length at high
            rw [show i = reader.stored.length by omega]
            exact writable
          next =>
            have later := induction (even.copied isEof) (shared.advance c)
              fun i low high => by omega
            cases later with
            | same all shared reader sink status =>
              refine .same (fun i low high => ?_) shared reader sink status
              rcases Nat.eq_or_lt_of_le low with first | after
              · rw [← first]
                exact writable
              · exact all i (further ▸ after) high
            | lost low high fails lost status =>
              exact .lost (by omega) high fails lost status
        · rw [if_neg writable]
          refine .lost le_rfl ?_ (Bool.eq_false_of_not_eq_true writable)
            ⟨c, isEof, even.stored ▸ even.eof, ?_⟩ rfl
          · split
            next =>
              change _ < (reader.copied c).stored.length
              omega
            next =>
              have grows : (reader.copied c).stored.length ≤ _ :=
                stored_le killed rounds (reader.copied c).free (shared.advance c)
              rw [further] at grows
              exact grows
          · change reader.taken ++ [c] = reader.stored ++ [c]
            rw [even.stored]

/-! Whole calls. -/

/-- With all memory writable a call waits as one that can go on, or it
returns a line, or it has been killed. -/
inductive Reader.Ends (reader : Reader) : Option Int → Prop
  | waits : reader.Going → Ends reader none
  | lined {result : Int} : reader.Lined result → Ends reader (some result)
  | killed : reader.Going → Ends reader (some (-1))

theorem readLoop_ends {reader : Reader} (going : reader.Going) (killed : Bool) (shared : Shared) :
    ((reader.go killed shared).2.2 = .sleeps → (reader.go killed shared).2.1.Going) ∧ ∀ {result},
      (reader.go killed shared).2.2 = .returns result →
      (reader.go killed shared).2.1.Ends (some result) := by
  obtain ⟨goes, ends⟩ := readLoop_going going rfl shared
  cases killed with
  | false => exact ⟨goes, fun returned => .lined (ends returned)⟩
  | true =>
    unfold Reader.go
    rw [readLoop_killed]
    generalize readLoop false reader.n.toNat reader shared = done at goes ends ⊢
    obtain ⟨after, next, status⟩ := done
    cases status with
    | sleeps =>
      refine ⟨nofun, ?_⟩
      rintro _ ⟨⟩
      exact .killed (goes rfl)
    | returns value => exact ⟨nofun, fun returned => .lined (ends returned)⟩

theorem readTurns_ends {reader : Reader} (going : reader.Going) (turns : List (Shared × Bool)) :
    (readTurns reader turns).1.Ends (readTurns reader turns).2 := by
  induction turns generalizing reader with
  | nil => exact .waits going
  | cons turn rest induction =>
    obtain ⟨shared, killed⟩ := turn
    obtain ⟨goes, ends⟩ := readLoop_ends going killed shared
    unfold readTurns
    generalize reader.go killed shared = done at goes ends ⊢
    obtain ⟨after, next, status⟩ := done
    cases status with
    | sleeps => exact induction (goes rfl)
    | returns result => exact ends rfl

theorem readTurns_stored_le (reader : Reader) (turns : List (Shared × Bool)) :
    reader.stored.length ≤ (readTurns reader turns).1.stored.length := by
  induction turns generalizing reader with
  | nil => exact le_rfl
  | cons turn rest induction =>
    obtain ⟨shared, killed⟩ := turn
    have grows : _ ≤ (reader.go killed shared).2.1.stored.length :=
      stored_le killed reader.n.toNat reader shared
    unfold readTurns
    generalize reader.go killed shared = done at grows ⊢
    obtain ⟨after, next, status⟩ := done
    cases status with
    | sleeps => exact grows.trans (induction next)
    | returns result => exact grows

/-- A call goes as it does with all memory writable, or it loses a byte. -/
theorem readTurns_follows {reader : Reader} (going : reader.free.Going)
    (turns : List (Shared × Bool)) :
    (∀ i, reader.stored.length ≤ i → i < (readTurns reader.free turns).1.stored.length →
        reader.sink i = true) ∧ readTurns reader.free turns =
      ((readTurns reader turns).1.free, (readTurns reader turns).2) ∨
      (∃ i, reader.stored.length ≤ i ∧ i < (readTurns reader.free turns).1.stored.length ∧
        reader.sink i = false) ∧ (readTurns reader turns).1.Lost := by
  -- by induction on the turns; so far every byte could be stored
  induction turns generalizing reader with
  | nil =>
    refine .inl ⟨fun i low high => ?_, rfl⟩
    exact absurd (low.trans_lt high) (Nat.lt_irrefl _)
  | cons turn rest induction =>
    obtain ⟨shared, killed⟩ := turn
    have even : reader.Even := ⟨going.stored, going.eof⟩
    have follows : Follows reader (reader.go killed shared) (reader.free.go killed shared) :=
      readLoop_follows killed reader.n.toNat even shared
    obtain ⟨goes, -⟩ := readLoop_ends going killed shared
    have grows : _ ≤ (reader.free.go killed shared).2.1.stored.length :=
      stored_le killed reader.n.toNat reader.free shared
    unfold readTurns
    generalize reader.go killed shared = done at follows ⊢
    generalize reader.free.go killed shared = ideal at follows goes grows ⊢
    obtain ⟨after, next, status⟩ := done
    obtain ⟨idealAfter, idealNext, idealStatus⟩ := ideal
    cases follows with
    | same all _ same sink statuses =>
      obtain rfl : idealNext = next.free := same
      obtain rfl : status = idealStatus := statuses
      cases status with
      | returns result => exact .inl ⟨all, rfl⟩
      | sleeps =>
        rcases induction (goes rfl) with ⟨later, equal⟩ | ⟨⟨i, low, high, fails⟩, lost⟩
        · refine .inl ⟨fun i low high => ?_, equal⟩
          by_cases now : i < next.stored.length
          · exact all i low now
          · rw [← show next.sink = reader.sink from sink]
            exact later i (Nat.not_lt.mp now) high
        · refine .inr ⟨⟨i, grows.trans low, high, ?_⟩, lost⟩
          rw [← show next.sink = reader.sink from sink]
          exact fails
    | lost low high fails lost returned =>
      obtain rfl : status = .returns _ := returned
      refine .inr ⟨⟨_, low, ?_, fails⟩, lost⟩
      cases idealStatus with
      | returns result => exact high
      | sleeps =>
        exact Nat.lt_of_lt_of_le high (readTurns_stored_le ..)

def Reader.Exact (reader : Reader) (result : Int) : Prop :=
  reader.stored = reader.taken.filter (· ≠ eof) ∧ reader.stored.length = result.toNat

theorem Reader.Lost.not_exact {reader : Reader} (lost : reader.Lost)
    (result : Int) : ¬reader.Exact result := by
  obtain ⟨c, notEof, absent, taken⟩ := lost
  rintro ⟨same, _⟩
  have kept : ([c] : List UInt8).filter (· ≠ eof) = [c] :=
    filter_eof fun member => notEof (List.mem_singleton.mp member).symm
  rw [taken, List.filter_append, filter_eof absent, kept] at same
  have lengths := congrArg List.length same
  rw [List.length_append, List.length_singleton] at lengths
  omega

theorem consoleread_exact_iff (isInt : IsInt n)
    (done : consoleread n sink turns = (reader, some result)) :
    reader.Exact result ↔ (∀ i < (consoleread n (fun _ => true) turns).1.stored.length, sink i =
        true) ∧ ((consoleread n (fun _ => true) turns).2 = some (-1) →
        (consoleread n (fun _ => true) turns).1.stored = []) := by
  have going : (Reader.enter n sink).free.Going :=
    .enter isInt fun _ => rfl
  have ends := readTurns_ends going turns
  unfold consoleread at done ⊢
  change reader.Exact result ↔ (∀ i < (readTurns (Reader.enter n sink).free
    turns).1.stored.length, sink i = true) ∧ ((readTurns
      (Reader.enter n sink).free turns).2 = some (-1) → (readTurns
        (Reader.enter n sink).free turns).1.stored = [])
  rcases readTurns_follows going turns with ⟨all, same⟩ | ⟨⟨i, _, less, fails⟩, lost⟩
  · rw [done] at same
    rw [same] at ends all ⊢
    refine Iff.trans ?_ (and_iff_right fun i less =>
      all i (Nat.zero_le i) less).symm
    change reader.Exact result ↔ (some result = some (-1) → reader.stored = [])
    cases ends with
    | lined lined =>
      have value : result = reader.stored.length := lined.result
      refine iff_of_true ⟨lined.stored, ?_⟩ fun negative => ?_
      · rw [value, Int.toNat_natCast]
      · cases negative
        omega
    | killed stays =>
      have stored : reader.stored = reader.taken := stays.stored
      have absent : eof ∉ reader.taken := stays.eof
      refine ⟨fun exactly _ => ?_, fun empty => ⟨?_, ?_⟩⟩
      · exact List.eq_nil_of_length_eq_zero exactly.2
      · rw [Reader.filter_eof absent, stored]
      · rw [empty rfl]
        rfl
  · rw [done] at lost
    refine iff_of_false (lost.not_exact result) fun ⟨all, _⟩ => ?_
    cases (all i less).symm.trans fails

end Console

/-! Both kinds of buffer. -/

def oneByte : Pipes.Shared Unit where
  pipe := (Pipes.Pipe.alloc fun _ => 0).store 7
  openBy _ _ := true

theorem oneByte_holds : oneByte.pipe.Holds [7] := by
  have empty : (Pipes.Pipe.alloc fun _ => 0).Holds [] :=
    .nil _ (UInt32.toNat_lt _)
  exact empty.store (by decide) 7

end Xv6Lottery
