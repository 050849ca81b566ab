import Xv6Lottery.Console.Editing
import Xv6Lottery.Lib.Transition

/-! The line discipline of the console: what the calls of consoleread() get is
the committed input, line by line. -/

namespace Xv6Lottery.Console

open Transition Function

theorem ofInt_toNat (low : 0 ≤ n) (high : n < 2 ^ 32) : (UInt32.ofInt n).toNat = n.toNat := by
  rw [UInt32.ofInt, UInt32.toNat_ofNat', Int.emod_eq_of_lt low high]
  omega

namespace Reader

structure Counted (reader : Reader) : Prop where
  copies : ∀ i, reader.sink i = true
  stored : reader.stored = reader.taken
  eof : eof ∉ reader.taken
  target : reader.target = UInt32.ofInt (reader.n + reader.taken.length)
  isInt : IsInt (reader.n + reader.taken.length)
  begun : reader.taken = [] ∨ 0 ≤ reader.n

structure Going (reader : Reader) : Prop extends Counted reader where
  newline : newline ∉ reader.taken

/-- A call that has returned: it has stored what it has taken, and it has
taken no byte after a newline or a control-D. -/
structure Lined (reader : Reader) (result : Int) : Prop where
  result : result = reader.stored.length
  stored : reader.stored = reader.taken.filter (· ≠ Console.eof)
  line : reader.taken = [Console.eof] ∨ Console.eof ∉ reader.taken ∧
      Console.newline ∉ reader.taken.dropLast

theorem filter_eof {bytes : List UInt8} (absent : Console.eof ∉ bytes) :
    bytes.filter (· ≠ Console.eof) = bytes := by
  refine List.filter_eq_self.mpr fun byte member => decide_eq_true ?_
  rintro rfl
  exact absent member

theorem Going.enter {n : Int} {sink : Nat → Bool} (isInt : IsInt n)
    (copies : ∀ i, sink i = true) : (Reader.enter n sink).Going where
  copies := copies
  stored := rfl
  eof := List.not_mem_nil
  newline := List.not_mem_nil
  target := by
    change UInt32.ofInt n = UInt32.ofInt (n + 0)
    rw [Int.add_zero]
  isInt := by
    change IsInt (n + 0)
    rw [Int.add_zero]
    exact isInt
  begun := .inl rfl

namespace Counted

variable {reader : Reader} (counted : reader.Counted)

include counted

theorem length_lt : reader.taken.length < 2 ^ 31 := by
  have small := counted.isInt.2
  rcases counted.begun with empty | positive
  · rw [empty]
    decide
  · omega

theorem result_eq : reader.result = reader.taken.length := by
  have small := counted.length_lt
  have value : (UInt32.ofInt reader.taken.length).toNat =
      reader.taken.length := ofInt_toNat (by omega) (by omega)
  rw [Reader.result, counted.target, Int.add_comm, UInt32.ofInt_add,
    UInt32.add_sub_cancel, BitVec.toInt_eq_toNat_of_lt]
  · exact congrArg _ value
  · change 2 * (UInt32.ofInt _).toNat < 2 ^ 32
    rw [value]
    omega

theorem less_iff (positive : 0 < reader.n) :
    UInt32.ofInt reader.n < reader.target ↔ reader.taken ≠ [] := by
  have small := counted.isInt.2
  rw [counted.target, UInt32.lt_iff_toNat_lt, ofInt_toNat, ofInt_toNat, ← List.length_pos_iff]
  all_goals omega

theorem lined (line : Console.newline ∉ reader.taken.dropLast) : reader.Lined reader.result where
  result := by rw [counted.result_eq, counted.stored]
  stored := by rw [counted.stored, filter_eof counted.eof]
  line := .inr ⟨counted.eof, line⟩

theorem lined_eof (empty : reader.taken = []) : (reader.take Console.eof).Lined reader.result where
  result := by
    change _ = (reader.stored.length : Int)
    rw [counted.result_eq, counted.stored]
  stored := by
    change reader.stored = (reader.taken ++ [Console.eof]).filter _
    rw [counted.stored, empty]
    rfl
  line := by
    refine .inl ?_
    change reader.taken ++ [Console.eof] = _
    rw [empty]
    rfl

theorem copied (positive : 0 < reader.n) (other : c ≠ Console.eof) : (reader.copied c).Counted := by
  have total : reader.n - 1 + ((reader.taken ++ [c]).length : Nat) =
      reader.n + reader.taken.length := by
    rw [List.length_append, List.length_singleton]
    omega
  exact {
    copies := counted.copies
    stored := by
      change reader.stored ++ [c] = reader.taken ++ [c]
      rw [counted.stored]
    eof := by
      change Console.eof ∉ reader.taken ++ [c]
      rw [List.mem_append, List.mem_singleton, not_or]
      exact ⟨counted.eof, other.symm⟩
    target := by
      change reader.target = UInt32.ofInt (reader.n - 1 + ((reader.taken ++ [c]).length : Nat))
      rw [total, counted.target]
    isInt := by
      change IsInt (reader.n - 1 + ((reader.taken ++ [c]).length : Nat))
      rw [total]
      exact counted.isInt
    begun := .inr (Int.le_sub_one_of_lt positive) }

end Counted

end Reader

structure Segment (shared : Shared) (reader : Reader) (done : Shared × Reader × Status) : Prop where
  edited : ∃ ready pending, Edited done.1 ready pending
  moved : ∃ bytes, done.1.taken = shared.taken ++ bytes ∧ done.2.1.taken = reader.taken ++ bytes
  goes : done.2.2 = .sleeps → done.2.1.Going
  ends : ∀ {result}, done.2.2 = .returns result → done.2.1.Lined result

theorem readLoop_going (going : reader.Going) (left : rounds = reader.n.toNat) (shared : Shared) :
    ((readLoop false rounds reader shared).2.2 = .sleeps →
        (readLoop false rounds reader shared).2.1.Going) ∧ ∀ {result},
      (readLoop false rounds reader shared).2.2 = .returns result →
      (readLoop false rounds reader shared).2.1.Lined result := by
  have unfinished : newline ∉ reader.taken.dropLast := fun member =>
    going.newline (List.dropLast_subset _ member)
  -- by induction on what is left to read; the line has not ended yet
  induction rounds generalizing shared reader with
  | zero =>
    refine ⟨by rintro ⟨⟩, ?_⟩
    rintro _ ⟨⟩
    exact going.lined unfinished
  | succ rounds induction =>
    have positive : 0 < reader.n := by omega
    unfold readLoop
    by_cases empty : shared.cons.r = shared.cons.w
    · rw [if_pos empty]
      exact ⟨fun _ => going, by rintro _ ⟨⟩⟩
    · rw [if_neg empty]
      dsimp only
      rw [going.copies, if_pos rfl]
      generalize shared.cons.buf (cell shared.cons.r) = c
      by_cases isEof : c = eof
      · subst isEof
        rw [if_pos rfl]
        split
        next =>
          refine ⟨by rintro ⟨⟩, ?_⟩
          rintro _ ⟨⟩
          exact going.lined unfinished
        next first =>
          have fresh : reader.taken = [] := not_not.mp fun begun =>
            first ((going.less_iff positive).mpr begun)
          refine ⟨by rintro ⟨⟩, ?_⟩
          rintro _ ⟨⟩
          exact going.lined_eof fresh
      · rw [if_neg isEof]
        have counted := going.copied positive isEof
        split
        next =>
          refine ⟨by rintro ⟨⟩, ?_⟩
          rintro _ ⟨⟩
          refine counted.lined ?_
          change newline ∉ (reader.taken ++ [c]).dropLast
          rw [List.dropLast_concat]
          exact going.newline
        next goesOn =>
          have more : newline ∉ (reader.copied c).taken := by
            change newline ∉ reader.taken ++ [c]
            rw [List.mem_append, List.mem_singleton, not_or]
            exact ⟨going.newline, fun same => goesOn same.symm⟩
          have fewer : rounds = (reader.copied c).n.toNat := by
            change rounds = (reader.n - 1).toNat
            omega
          exact induction ⟨counted, more⟩ fewer _ fun member => more (List.dropLast_subset _ member)

theorem Reader.Going.segment (going : reader.Going) (edited : Edited shared ready pending) :
    Segment shared reader (reader.go false shared) := by
  obtain ⟨goes, ends⟩ := readLoop_going going rfl shared
  obtain ⟨bytes, rest, moves⟩ :=
    readLoop_moves false reader.n.toNat reader edited.holds
  exact ⟨⟨rest, pending, edited.moved moves⟩, ⟨bytes, moves.taken, moves.reader⟩, goes, ends⟩

/-! Runs. -/

/-- All copies of the call succeed, and the process has not been killed. -/
def Event.Copies {Process : Type} : Event Process → Prop
  | .interrupt _ => True
  | .read _ _ sink killed => killed = false ∧ ∀ i, sink i = true
  | .resume _ killed => killed = false

structure State.Boot {Process : Type} (state : State Process) : Prop where
  read : state.shared.cons.r = state.shared.cons.w
  edit : state.shared.cons.e = state.shared.cons.w
  keys : state.shared.keys = []
  taken : state.shared.taken = []
  waiting : ∀ pid, state.waiting pid = none
  reads : state.reads = []

section Runs

variable {Process : Type} [DecidableEq Process]

structure CopyStep (state : State Process) (event : Event Process)
    (next : State Process) : Prop where
  step : Step state event next
  copies : event.Copies

structure SerialStep (state : State Process) (event : Event Process)
    (next : State Process) : Prop extends CopyStep state event next where
  serial : ∀ pid n sink killed, event = .read pid n sink killed →
    ∀ other, state.waiting other = none

structure Orderly (state : State Process) : Prop where
  edited : ∃ ready pending, Edited state.shared ready pending
  waiting : ∀ {pid reader}, state.waiting pid = some reader → reader.Going
  reads : ∀ read ∈ state.reads, read.1.Lined read.2
  waitingOrder : ∀ {pid reader}, state.waiting pid = some reader →
    reader.taken.Sublist state.shared.taken
  readOrder : ∀ read ∈ state.reads, read.1.taken.Sublist state.shared.taken

structure Serial (state : State Process) : Prop where
  alone : ∀ {pid other reader next}, state.waiting pid = some reader →
    state.waiting other = some next → other = pid
  idle : (∀ pid, state.waiting pid = none) →
    (state.reads.map (·.1.taken)).flatten = state.shared.taken
  busy : ∀ {pid reader}, state.waiting pid = some reader →
    (state.reads.map (·.1.taken)).flatten ++ reader.taken = state.shared.taken

variable {state next : State Process} {event : Event Process}

omit [DecidableEq Process] in
theorem State.Boot.orderly (boot : state.Boot) : Orderly state where
  edited := by
    refine ⟨[], [], ⟨⟨⟨?_, ?_⟩, fun _ => rfl⟩, ?_⟩⟩
    · rw [boot.read, boot.edit]
      exact .nil _ (UInt32.toNat_lt _)
    · have small := state.shared.cons.w.toNat_lt
      rw [boot.read, List.length_nil]
      omega
    · rw [boot.keys, boot.taken]
      rfl
  waiting := fun waits => by
    rw [boot.waiting] at waits
    cases waits
  reads := fun read member => by
    rw [boot.reads] at member
    cases member
  waitingOrder := fun waits => by
    rw [boot.waiting] at waits
    cases waits
  readOrder := fun read member => by
    rw [boot.reads] at member
    cases member

omit [DecidableEq Process] in
theorem State.Boot.isSerial (boot : state.Boot) : Serial state where
  alone := fun waits => by
    rw [boot.waiting] at waits
    cases waits
  idle := fun _ => by
    rw [boot.reads, boot.taken]
    rfl
  busy := fun waits => by
    rw [boot.waiting] at waits
    cases waits

section Settle

variable {pid : Process} {reader : Reader} {done : Shared × Reader × Status}
  (segment : Segment state.shared reader done)

include segment

theorem Orderly.settle (orderly : Orderly state) (begun : reader.taken.Sublist state.shared.taken) :
    Orderly (state.settle pid done) := by
  obtain ⟨shared, after, status⟩ := done
  obtain ⟨bytes, moved, has⟩ := segment.moved
  have edited := segment.edited
  dsimp only at moved has edited
  have later : ∀ {other : List UInt8}, other.Sublist state.shared.taken →
      other.Sublist shared.taken := by
    intro other part
    rw [moved]
    exact part.trans (List.sublist_append_left ..)
  have mine : after.taken.Sublist shared.taken := by
    rw [moved, has]
    exact begun.append (List.Sublist.refl bytes)
  cases status with
  | sleeps =>
    have going := segment.goes rfl
    refine ⟨edited, fun {other reader} waits => ?_, orderly.reads, fun {other reader} waits => ?_,
      fun read member => later (orderly.readOrder read member)⟩
    all_goals
      change update state.waiting pid (some after) other = _ at waits
      by_cases same : other = pid
    · rw [same, update_self] at waits
      cases waits
      exact going
    · rw [update_of_ne same] at waits
      exact orderly.waiting waits
    · rw [same, update_self] at waits
      cases waits
      exact mine
    · rw [update_of_ne same] at waits
      exact later (orderly.waitingOrder waits)
  | returns result =>
    have others : ∀ {other reader}, (state.settle pid
        (shared, after, .returns result)).waiting other = some reader →
        state.waiting other = some reader := by
      intro other reader waits
      change update state.waiting pid none other = _ at waits
      by_cases same : other = pid
      · rw [same, update_self] at waits
        cases waits
      · rw [update_of_ne same] at waits
        exact waits
    refine ⟨edited, fun waits => orderly.waiting (others waits), fun read member => ?_,
      fun waits => later (orderly.waitingOrder (others waits)), fun read member => ?_⟩
    all_goals
      rcases List.mem_append.mp member with before | now
    · exact orderly.reads read before
    · rw [List.mem_singleton.mp now]
      exact segment.ends rfl
    · exact later (orderly.readOrder read before)
    · rw [List.mem_singleton.mp now]
      exact mine

theorem Serial.settle (others : ∀ other ≠ pid, state.waiting other = none)
    (before : (state.reads.map (·.1.taken)).flatten ++ reader.taken = state.shared.taken) :
    Serial (state.settle pid done) := by
  obtain ⟨shared, after, status⟩ := done
  obtain ⟨bytes, moved, has⟩ := segment.moved
  dsimp only at moved has
  have total : (state.reads.map (·.1.taken)).flatten ++ after.taken = shared.taken := by
    rw [has, moved, ← before, List.append_assoc]
  cases status with
  | sleeps =>
    have only : ∀ {other reader}, (state.settle pid
        (shared, after, .sleeps)).waiting other = some reader → other = pid ∧ reader = after := by
      intro other reader waits
      change update state.waiting pid (some after) other = _ at waits
      by_cases same : other = pid
      · rw [same, update_self] at waits
        cases waits
        exact ⟨same, rfl⟩
      · rw [update_of_ne same, others other same] at waits
        cases waits
    refine ⟨fun first second => ?_, fun nobody => ?_, fun waits => ?_⟩
    · rw [(only first).1, (only second).1]
    · have waits : update state.waiting pid (some after) pid =
        none := nobody pid
      rw [update_self] at waits
      cases waits
    · rw [(only waits).2]
      exact total
  | returns result =>
    have nobody : ∀ other, (state.settle pid
        (shared, after, .returns result)).waiting other = none := by
      intro other
      change update state.waiting pid none other = none
      by_cases same : other = pid
      · rw [same, update_self]
      · rw [update_of_ne same, others other same]
    refine ⟨fun first => ?_, fun _ => ?_, fun waits => ?_⟩
    · rw [nobody] at first
      cases first
    · change ((state.reads ++ [(after, result)]).map _).flatten = _
      rw [List.map_append, List.flatten_append, List.map_singleton, List.flatten_singleton]
      exact total
    · rw [nobody] at waits
      cases waits

end Settle

theorem Orderly.step (orderly : Orderly state)
    (taken : CopyStep state event next) : Orderly next := by
  obtain ⟨ready, pending, edited⟩ := orderly.edited
  obtain ⟨step, copies⟩ := taken
  cases step with
  | interrupt =>
    have same : ∀ c, (consoleintr c state.shared).taken =
        state.shared.taken := consoleintr_taken state.shared
    exact ⟨edited.interrupt _, orderly.waiting, orderly.reads, fun waits => by
        rw [same]
        exact orderly.waitingOrder waits,
      fun read member => by
        rw [same]
        exact orderly.readOrder read member⟩
  | read unused isInt =>
    obtain ⟨rfl, sinks⟩ := copies
    exact orderly.settle ((Reader.Going.enter isInt sinks).segment edited) (List.nil_sublist _)
  | resume waits =>
    cases copies
    exact orderly.settle ((orderly.waiting waits).segment edited) (orderly.waitingOrder waits)

theorem Serial.step (orderly : Orderly state) (serial : Serial state)
    (taken : SerialStep state event next) : Serial next := by
  obtain ⟨ready, pending, edited⟩ := orderly.edited
  obtain ⟨⟨step, copies⟩, separate⟩ := taken
  cases step with
  | interrupt =>
    have same : ∀ c, (consoleintr c state.shared).taken =
        state.shared.taken := consoleintr_taken state.shared
    exact ⟨serial.alone, fun idle => by
        rw [same]
        exact serial.idle idle,
      fun waits => by
        rw [same]
        exact serial.busy waits⟩
  | @read _ pid _ _ _ unused isInt =>
    obtain ⟨rfl, sinks⟩ := copies
    have nobody := separate _ _ _ _ rfl
    refine Serial.settle ((Reader.Going.enter isInt sinks).segment edited)
      (fun other _ => nobody other) ?_
    exact (List.append_nil _).trans (serial.idle nobody)
  | @resume _ pid _ _ waits =>
    cases copies
    refine Serial.settle ((orderly.waiting waits).segment edited) ?_ (serial.busy waits)
    intro other differs
    refine Option.eq_none_iff_forall_not_mem.mpr fun reader member => ?_
    exact differs (serial.alone waits member)

end Runs

structure LineDiscipline {Process : Type} (state : State Process) : Prop where
  ordered : (state.shared.cons.w - state.shared.cons.r).toNat ≤
    (state.shared.cons.e - state.shared.cons.r).toNat
  bound : (state.shared.cons.e - state.shared.cons.r).toNat ≤ inputBufSize
  full : (state.shared.cons.e - state.shared.cons.r).toNat = inputBufSize →
    state.shared.cons.w = state.shared.cons.e
  /-- What no call has taken is in the buffer. -/
  committed : (lineOf state.shared.keys).committed = state.shared.taken ++
    RingBuffer.contents state.shared.cons.buf state.shared.cons.r.toNat
      (state.shared.cons.w - state.shared.cons.r).toNat
  pending : (lineOf state.shared.keys).pending =
    RingBuffer.contents state.shared.cons.buf state.shared.cons.w.toNat
      (state.shared.cons.e - state.shared.cons.w).toNat
  reads : ∀ read ∈ state.reads, read.1.Lined read.2 ∧ read.1.taken.Sublist state.shared.taken

/-- The calls that have returned and the one that waits got the taken bytes
in order. -/
structure InOrder {Process : Type} (state : State Process) : Prop where
  idle : (∀ pid, state.waiting pid = none) →
    (state.reads.map (·.1.taken)).flatten = state.shared.taken ∧
      (state.reads.map (·.1.stored)).flatten = state.shared.taken.filter (· ≠ eof)
  busy : ∀ {pid reader}, state.waiting pid = some reader →
    (state.reads.map (·.1.taken)).flatten ++ reader.taken = state.shared.taken ∧
      (state.reads.map (·.1.stored)).flatten ++ reader.stored = state.shared.taken.filter (· ≠ eof)

section Theorem

variable {Process : Type}

theorem Orderly.lineDiscipline (orderly : Orderly state) : LineDiscipline state := by
  obtain ⟨ready, pending, edited⟩ := orderly.edited
  have holds := edited.holds
  exact {
    ordered := by
      rw [holds.ready_toNat, holds.size_toNat]
      exact Nat.le_add_right ..
    bound := by
      rw [holds.size_toNat]
      exact holds.room
    full := fun full => by
      rw [holds.size_toNat, ← List.length_append] at full
      exact (holds.idle_iff.mpr (holds.full full)).symm
    committed := by rw [edited.line, holds.ready_eq]
    pending := by rw [edited.line, holds.pending_eq]
    reads := fun read member =>
      ⟨orderly.reads read member, orderly.readOrder read member⟩ }

theorem Orderly.stored_flatten (orderly : Orderly state) :
    (state.reads.map (·.1.stored)).flatten = ((state.reads.map (·.1.taken)).flatten).filter (· ≠
        eof) := by
  rw [List.filter_flatten, List.map_map]
  congr 1
  exact List.map_congr_left fun read member =>
    (orderly.reads read member).stored

theorem Serial.inOrder {state : State Process} (serial : Serial state)
    (orderly : Orderly state) : InOrder state where
  idle := fun nobody => by
    rw [orderly.stored_flatten, serial.idle nobody]
    exact ⟨rfl, rfl⟩
  busy := fun {pid reader} waits => by
    have going := orderly.waiting waits
    refine ⟨serial.busy waits, ?_⟩
    rw [orderly.stored_flatten, ← serial.busy waits, List.filter_append,
      Reader.filter_eof going.eof, going.stored]

end Theorem

/-! A line with an erased character, and a call that reads it. -/

def idle : State Unit where
  shared := ⟨⟨fun _ => 0, 0, 0, 0, []⟩, [], []⟩
  waiting _ := none
  reads := []

def typeKeys (state : State Unit) (keys : List Int) : State Unit :=
  keys.foldl (fun state c =>
    { state with shared := consoleintr c state.shared }) state

theorem typeKeys_run (state : State Unit) (keys : List Int) :
    Run SerialStep state (keys.map .interrupt) (typeKeys state keys) := by
  induction keys generalizing state with
  | nil => exact .refl
  | cons c keys induction =>
    have first : SerialStep state (.interrupt c)
        { state with shared := consoleintr c state.shared } :=
      ⟨⟨.interrupt, trivial⟩, nofun⟩
    exact (Run.single first).trans (induction _)

def typedLine : State Unit := typeKeys idle [97, 98, 8, 13]

def readLine : State Unit :=
  typedLine.settle () ((Reader.enter 5 fun _ => true).go false typedLine.shared)

end Xv6Lottery.Console
