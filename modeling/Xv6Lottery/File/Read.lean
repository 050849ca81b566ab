import Xv6Lottery.Console.Delivery
import Xv6Lottery.Disk.Format

/-! fileread() for the three kinds of files. The count is an `int`, and an
unsigned one in readi(). -/

namespace Xv6Lottery.Reading

/-- The bytes that copyout() stores from an offset on: it stops at the first
page that is not writable. -/
def copyout (sink : Nat → Bool) : Nat → List UInt8 → List UInt8
  | _, [] => []
  | start, byte :: rest =>
    if sink start then byte :: copyout sink (start + 1) rest else []

/-- The inode of an open file: what bmap() and bread() give for a block, none
if bmap() returns 0. -/
structure Content where
  size : UInt32
  block : Nat → Option Block

structure Outcome where
  stored : List UInt8
  result : Int
  deriving DecidableEq

def total (tot : Nat) : Int := (UInt32.ofNat tot).toBitVec.toInt

def readiLoop (content : Content) (sink : Nat → Bool) :
    Nat → Nat → Nat → List UInt8 → Option Outcome
  | 0, _, _, stored => some ⟨stored, total stored.length⟩
  | rounds + 1, off, left, stored =>
    if left = 0 then
      some ⟨stored, total stored.length⟩
    else if maxfile ≤ off / bsize then
      none
    else
      match content.block (off / bsize) with
      | none => some ⟨stored, total stored.length⟩
      | some data =>
        let m := min left (bsize - off % bsize)
        let copied := copyout sink stored.length (data.bytes (off % bsize) m)
        if copied.length = m then
          readiLoop content sink rounds (off + m) (left - m) (stored ++ copied)
        else
          some ⟨stored ++ copied, -1⟩

def readi (content : Content) (sink : Nat → Bool) (off n : UInt32) : Option Outcome :=
  if content.size < off ∨ off + n < off then
    some ⟨[], 0⟩
  else
    let n := if content.size < off + n then content.size - off else n
    readiLoop content sink n.toNat off.toNat n.toNat []

inductive Kind (Process : Type) where
  | none
  /-- The pipe when the process gets its lock. -/
  | pipe (turns : List (Pipes.Shared Process × Bool))
  /-- The console when the process gets its lock. -/
  | device (major : BitVec 16) (turns : List (Console.Shared × Bool))
  | inode (off : UInt32) (content : Content)

structure OpenFile (Process : Type) where
  readable : Bool
  kind : Kind Process

def console : Int := 1

/-- None if the call still waits, or panics. -/
def fileread {Process : Type} (f : OpenFile Process) (sink : Nat → Bool)
    (n : Int) : Option Outcome :=
  if f.readable = false then
    some ⟨[], -1⟩
  else
    match f.kind with
    | .pipe turns =>
      (Pipes.piperead n sink turns).map fun (before, after, result) =>
        ⟨after.returned.drop before.returned.length, result⟩
    | .device major turns =>
      if major.toInt < 0 ∨ ndev ≤ major.toInt ∨ major.toInt ≠ console then
        some ⟨[], -1⟩
      else
        match Console.consoleread n sink turns with
        | (_, none) => none
        | (reader, some result) => some ⟨reader.stored, result⟩
    | .inode off content => readi content sink off (UInt32.ofInt n)
    | .none => none

structure Outcome.Within (outcome : Outcome) (n : Int) : Prop where
  stored : (outcome.stored.length : Int) ≤ max n 0
  result : outcome.result ≤ max n 0

/-- readi() takes a negative count for a large one: it does not wrap, and
there is a byte to read and a place for it. -/
structure Overrun {Process : Type} (f : OpenFile Process)
    (sink : Nat → Bool) (n : Int) (off : UInt32) (content : Content) : Prop where
  readable : f.readable = true
  kind : f.kind = .inode off content
  negative : n < 0
  wraps : off.toNat + n < 0
  inside : off < content.size
  found : content.block (off.toNat / bsize) ≠ none
  writable : sink 0 = true

/-! Pipes and the console. -/

theorem copyFrom_bound {Process : Type} {n : Int} {sink : Nat → Bool} (rounds i : Nat)
    (shared : Pipes.Shared Process) :
    ∃ stored : List UInt8, (Pipes.copyFrom n sink rounds i shared).1.returned =
      shared.returned ++ stored ∧ (Pipes.copyFrom n sink rounds i shared).2 = i + stored.length ∧
      stored.length ≤ n.toNat - i := by
  have nothing : shared.returned = shared.returned ++ [] :=
    (List.append_nil _).symm
  induction rounds generalizing i shared with
  | zero => exact ⟨[], nothing, rfl, Nat.zero_le _⟩
  | succ rounds induction =>
    unfold Pipes.copyFrom Pipes.readStep
    by_cases more : (i : Int) < n
    · rw [if_pos more]
      by_cases empty : shared.pipe.Empty
      · rw [if_pos empty]
        exact ⟨[], nothing, rfl, Nat.zero_le _⟩
      · rw [if_neg empty]
        cases sink i with
        | true =>
          obtain ⟨stored, returned, count, bound⟩ := induction (i + 1)
            { shared with
              pipe := shared.pipe.advance
              returned := shared.returned ++ [shared.pipe.next] }
            (List.append_nil _).symm
          refine ⟨shared.pipe.next :: stored, ?_, ?_, ?_⟩
          · refine returned.trans ?_
            rw [List.append_assoc, List.singleton_append]
          · refine count.trans ?_
            rw [List.length_cons]
            omega
          · rw [List.length_cons]
            omega
        | false => exact ⟨[], nothing, rfl, Nat.zero_le _⟩
    · rw [if_neg more]
      exact ⟨[], nothing, rfl, Nat.zero_le _⟩

theorem piperead_within {Process : Type} {n : Int} {sink : Nat → Bool}
    {turns : List (Pipes.Shared Process × Bool)} {before after : Pipes.Shared Process}
    (done : Pipes.piperead n sink turns = some (before, after, result)) :
    Outcome.Within ⟨after.returned.drop before.returned.length, result⟩ n := by
  induction turns with
  | nil => cases done
  | cons turn rest induction =>
    obtain ⟨shared, killed⟩ := turn
    unfold Pipes.piperead at done
    split at done
    next =>
      cases killed with
      | false => exact induction done
      | true =>
        cases done
        refine ⟨?_, ?_⟩
        · dsimp only
          rw [List.drop_length]
          exact le_max_right n 0
        · exact (by decide : (-1 : Int) ≤ 0).trans (le_max_right n 0)
    next =>
      obtain ⟨stored, returned, count, bound⟩ :=
        @copyFrom_bound Process n sink (n.toNat + 1) 0 shared
      generalize Pipes.copyFrom n sink (n.toNat + 1) 0 shared = ended at done returned count
      obtain ⟨final, i⟩ := ended
      cases done
      dsimp only at returned count
      refine ⟨?_, ?_⟩
      · dsimp only
        rw [returned, List.drop_left]
        omega
      · dsimp only
        omega

theorem total_le (tot : Nat) : total tot ≤ tot := by
  have value : (UInt32.ofNat tot).toBitVec.toNat = tot % 2 ^ 32 :=
    UInt32.toNat_ofNat'
  have small : tot % 2 ^ 32 ≤ tot := Nat.mod_le ..
  rw [total, BitVec.toInt_eq_toNat_cond, value]
  split <;> omega

theorem ofInt_natCast (n : Nat) : UInt32.ofInt n = UInt32.ofNat n := by
  refine UInt32.toNat_inj.mp ?_
  rw [UInt32.ofInt, UInt32.toNat_ofNat', UInt32.toNat_ofNat']
  omega

/-- What a call of consoleread() has stored, and what it would return. -/
structure Limited (n : Int) (reader : Console.Reader) : Prop where
  left : reader.n = n - reader.stored.length
  target : reader.target = UInt32.ofInt n
  bound : (reader.stored.length : Int) ≤ max n 0

theorem Limited.result_le (limited : Limited n reader) : reader.result ≤ max n 0 := by
  have whole : n = reader.stored.length + reader.n := by
    rw [limited.left]
    omega
  have value : reader.result = total reader.stored.length := by
    rw [Console.Reader.result, limited.target]
    nth_rewrite 1 [whole]
    rw [UInt32.ofInt_add, UInt32.add_sub_cancel, ofInt_natCast]
    rfl
  rw [value]
  exact (total_le _).trans limited.bound

theorem Limited.take (limited : Limited n reader) (c : UInt8) : Limited n (reader.take c) :=
  ⟨limited.left, limited.target, limited.bound⟩

theorem readLoop_limited {n : Int} {killed : Bool} {rounds : Nat} {reader : Console.Reader}
    (limited : Limited n reader) (left : rounds = reader.n.toNat) (shared : Console.Shared) :
    Limited n (Console.readLoop killed rounds reader shared).2.1 ∧ ∀ result,
      (Console.readLoop killed rounds reader shared).2.2 = .returns result → result ≤ max n 0 := by
  have returns : ∀ {status : Console.Status} {reader : Console.Reader},
      Limited n reader → status = .returns reader.result →
      ∀ result, status = .returns result → result ≤ max n 0 := by
    rintro _ reader limited rfl _ ⟨⟩
    exact limited.result_le
  induction rounds generalizing reader shared with
  | zero => exact ⟨limited, returns limited rfl⟩
  | succ rounds induction =>
    have copied : ∀ c, Limited n (reader.copied c) := by
      intro c
      have longer : (reader.copied c).stored.length = reader.stored.length + 1 := List.length_append
      have before := limited.left
      refine ⟨?_, limited.target, ?_⟩
      · change reader.n - 1 = _
        omega
      · omega
    unfold Console.readLoop
    dsimp only
    split
    next =>
      refine ⟨limited, ?_⟩
      cases killed with
      | false => exact fun _ => by rintro ⟨⟩
      | true =>
        rintro _ ⟨⟩
        exact (by decide : (-1 : Int) ≤ 0).trans (le_max_right n 0)
    next =>
      split
      next =>
        split
        next => exact ⟨limited, returns limited rfl⟩
        next => exact ⟨limited.take _, returns limited rfl⟩
      next =>
        split
        next =>
          split
          next => exact ⟨copied _, returns (copied _) rfl⟩
          next =>
            refine induction (copied _) ?_ _
            change rounds = (reader.n - 1).toNat
            omega
        next => exact ⟨limited.take _, returns limited rfl⟩

theorem readTurns_limited {n : Int} {reader after : Console.Reader}
    {turns : List (Console.Shared × Bool)} {result : Int} (limited : Limited n reader)
    (done : Console.readTurns reader turns = (after, some result)) :
    Outcome.Within ⟨after.stored, result⟩ n := by
  induction turns generalizing reader with
  | nil => cases done
  | cons turn rest induction =>
    obtain ⟨shared, killed⟩ := turn
    obtain ⟨later, returns⟩ := @readLoop_limited n killed _ reader limited rfl shared
    unfold Console.readTurns Console.Reader.go at done
    generalize Console.readLoop killed reader.n.toNat reader shared = ended at done later returns
    obtain ⟨final, next, status⟩ := ended
    cases status with
    | sleeps => exact induction later done
    | returns value =>
      cases done
      exact ⟨later.bound, returns _ rfl⟩

theorem consoleread_within (done : Console.consoleread n sink turns = (reader, some result)) :
    Outcome.Within ⟨reader.stored, result⟩ n := by
  have limited : Limited n (.enter n sink) :=
    ⟨(Int.sub_zero n).symm, rfl, le_max_right n 0⟩
  exact readTurns_limited limited done

/-! Inodes. -/

theorem copyout_length_le (sink : Nat → Bool) (start : Nat)
    (bytes : List UInt8) : (copyout sink start bytes).length ≤ bytes.length := by
  induction bytes generalizing start with
  | nil => exact le_rfl
  | cons byte rest induction =>
    unfold copyout
    split
    · exact Nat.succ_le_succ (induction (start + 1))
    · exact Nat.zero_le _

theorem total_bound (stored : List UInt8) (left : Nat) :
    stored.length ≤ stored.length + left ∧ total stored.length ≤ (stored.length + left : Nat) := by
  have value := total_le stored.length
  omega

theorem readiLoop_bound (done : readiLoop content sink rounds off left stored = some outcome) :
    outcome.stored.length ≤ stored.length + left ∧ outcome.result ≤
      (stored.length + left : Nat) := by
  induction rounds generalizing off left stored with
  | zero =>
    cases done
    exact total_bound stored left
  | succ rounds induction =>
    unfold readiLoop at done
    split at done
    next =>
      cases done
      exact total_bound stored left
    next =>
      split at done
      next => cases done
      next =>
        split at done
        next =>
          cases done
          exact total_bound stored left
        next data _ =>
          dsimp only at done
          have bound := copyout_length_le sink stored.length
            (data.bytes (off % bsize) (min left (bsize - off % bsize)))
          rw [Block.bytes, List.length_map, List.length_range, ← Block.bytes] at bound
          generalize copyout sink stored.length (data.bytes (off % bsize)
            (min left (bsize - off % bsize))) = copied at done bound
          split at done
          next whole =>
            have later := induction done
            rw [List.length_append] at later
            omega
          next =>
            cases done
            dsimp only
            rw [List.length_append]
            omega

theorem readi_bound (done : readi content sink off n = some outcome) :
    outcome.stored.length ≤ n.toNat ∧ outcome.result ≤ n.toNat := by
  unfold readi at done
  split at done
  next =>
    cases done
    exact ⟨Nat.zero_le _, by dsimp only; omega⟩
  next inside =>
    rw [not_or, UInt32.not_lt, UInt32.not_lt] at inside
    have bound := readiLoop_bound done
    rw [List.length_nil, Nat.zero_add] at bound
    split at bound
    next past =>
      have less : (content.size - off).toNat ≤ n.toNat := by
        rw [UInt32.toNat_sub_of_le _ _ inside.1]
        have ends := inside.2
        rw [UInt32.le_iff_toNat_le, UInt32.toNat_add] at ends
        rw [UInt32.lt_iff_toNat_lt, UInt32.toNat_add] at past
        have small := off.toNat_lt
        omega
      omega
    next => exact bound

theorem readiLoop_grows (done : readiLoop content sink rounds off left stored = some outcome) :
    stored.length ≤ outcome.stored.length := by
  induction rounds generalizing off left stored with
  | zero =>
    cases done
    exact le_rfl
  | succ rounds induction =>
    unfold readiLoop at done
    split at done
    next =>
      cases done
      exact le_rfl
    next =>
      split at done
      next => cases done
      next =>
        split at done
        next =>
          cases done
          exact le_rfl
        next =>
          dsimp only at done
          split at done
          next =>
            have later := induction done
            rw [List.length_append] at later
            omega
          next =>
            cases done
            dsimp only
            rw [List.length_append]
            exact Nat.le_add_right ..

theorem readiLoop_first (positive : 0 < left)
    (done : readiLoop content sink left off left [] = some outcome) :
    (content.block (off / bsize) ≠ none ∧ sink 0 = true → 0 < outcome.stored.length) ∧
      (¬(content.block (off / bsize) ≠ none ∧ sink 0 = true) → outcome.stored = [] ∧
        outcome.result ≤ 0) := by
  obtain ⟨rounds, rfl⟩ := Nat.exists_eq_succ_of_ne_zero positive.ne'
  unfold readiLoop at done
  rw [if_neg positive.ne'] at done
  split at done
  next => cases done
  next =>
    split at done
    next missing =>
      cases done
      exact ⟨fun both => absurd missing both.1, fun _ => ⟨rfl, by decide⟩⟩
    next data found =>
      dsimp only at done
      have room : off % bsize < bsize := Nat.mod_lt _ (by decide)
      obtain ⟨m, count⟩ : ∃ m, min (rounds + 1) (bsize - off % bsize) =
          m + 1 := Nat.exists_eq_succ_of_ne_zero (by omega)
      have bytes : data.bytes (off % bsize) (m + 1) =
          data.byte (off % bsize) :: data.bytes (off % bsize + 1) m := by
        unfold Block.bytes
        rw [List.range_succ_eq_map, List.map_cons, List.map_map, Nat.add_zero]
        congr 1
        refine List.map_congr_left fun position _ => ?_
        rw [Function.comp_apply, Nat.succ_eq_add_one, Nat.add_assoc, Nat.add_comm 1]
      rw [Nat.succ_eq_add_one, count, bytes, List.length_nil, copyout] at done
      cases writable : sink 0 with
      | true =>
        rw [if_pos writable] at done
        refine ⟨fun _ => ?_, fun neither => ?_⟩
        · split at done
          next =>
            refine Nat.lt_of_lt_of_le ?_ (readiLoop_grows done)
            exact Nat.succ_pos _
          next =>
            cases done
            exact Nat.succ_pos _
        · refine absurd ⟨?_, rfl⟩ neither
          rw [found]
          rintro ⟨⟩
      | false =>
        have refused : ¬sink 0 = true := by
          rw [writable]
          rintro ⟨⟩
        simp only [if_neg refused, List.length_nil] at done
        rw [if_neg (Nat.succ_ne_zero m).symm] at done
        refine ⟨fun both => absurd both.2 (by rintro ⟨⟩), fun _ => ?_⟩
        cases done
        exact ⟨rfl, by decide⟩

theorem ofInt_negative (isInt : Console.IsInt n) (negative : n < 0) :
    ((UInt32.ofInt n).toNat : Int) = 2 ^ 32 + n := by
  have low := isInt.1
  have value : n % 2 ^ 32 = 2 ^ 32 + n := by omega
  rw [UInt32.ofInt, UInt32.toNat_ofNat', value]
  omega

theorem readi_negative (isInt : Console.IsInt n) (negative : n < 0)
    (done : readi content sink off (UInt32.ofInt n) = some outcome) :
    outcome.Within n ↔ ¬(off.toNat + n < 0 ∧ off < content.size ∧
        content.block (off.toNat / bsize) ≠ none ∧ sink 0 = true) := by
  have value := ofInt_negative isInt negative
  have low := isInt.1
  have small := off.toNat_lt
  have zero : max n 0 = 0 := max_eq_right negative.le
  have nothing : ∀ {outcome : Outcome}, outcome.stored = [] →
      outcome.result ≤ 0 → outcome.Within n := by
    intro outcome stored result
    refine ⟨?_, ?_⟩
    · rw [stored, zero]
      exact le_rfl
    · rw [zero]
      exact result
  unfold readi at done
  split at done
  next outside =>
    cases done
    refine iff_of_true (nothing rfl le_rfl) ?_
    rintro ⟨wraps, inside, _⟩
    rw [UInt32.lt_iff_toNat_lt, UInt32.lt_iff_toNat_lt, UInt32.toNat_add] at outside
    rw [UInt32.lt_iff_toNat_lt] at inside
    omega
  next within =>
    rw [not_or, UInt32.not_lt, UInt32.not_lt, UInt32.le_iff_toNat_le,
      UInt32.le_iff_toNat_le, UInt32.toNat_add] at within
    obtain ⟨inside, wide⟩ := within
    have wraps : off.toNat + n < 0 := by omega
    dsimp only at done
    by_cases reaches : off < content.size
    · have positive : 0 < (if content.size < off + UInt32.ofInt n then
          content.size - off else UInt32.ofInt n).toNat := by
        rw [UInt32.lt_iff_toNat_lt] at reaches
        split
        · rw [UInt32.toNat_sub_of_le]
          · omega
          · exact UInt32.le_iff_toNat_le.mpr inside
        · omega
      obtain ⟨stores, not⟩ := readiLoop_first positive done
      by_cases both : content.block (off.toNat / bsize) ≠ none ∧ sink 0 = true
      · refine iff_of_false (fun within => ?_) (not_not.mpr ⟨wraps, reaches, both⟩)
        have bytes := stores both
        have bound := within.stored
        rw [zero] at bound
        omega
      · obtain ⟨stored, result⟩ := not both
        exact iff_of_true (nothing stored result) fun ⟨_, _, also⟩ =>
          both also
    · refine iff_of_true ?_ fun ⟨_, reached, _⟩ => reaches reached
      have bound := readiLoop_bound done
      rw [UInt32.lt_iff_toNat_lt] at reaches
      have past : content.size < off + UInt32.ofInt n := by
        rw [UInt32.lt_iff_toNat_lt, UInt32.toNat_add]
        omega
      have none : (content.size - off).toNat = 0 := by
        rw [UInt32.toNat_sub_of_le]
        · omega
        · exact UInt32.le_iff_toNat_le.mpr inside
      rw [if_pos past, none, List.length_nil] at bound
      exact nothing (List.eq_nil_of_length_eq_zero (Nat.le_zero.mp bound.1)) bound.2

/-- fileread() transfers no more than was asked for, unless a negative count
is taken for a large one. -/
theorem fileread_within_iff {Process : Type} {f : OpenFile Process} {sink : Nat → Bool} {n : Int}
    {outcome : Outcome} (isInt : Console.IsInt n) (done : fileread f sink n = some outcome) :
    outcome.Within n ↔ ∀ off content, ¬Overrun f sink n off content := by
  have refused : Outcome.Within ⟨[], -1⟩ n :=
    ⟨le_max_right n 0, (by decide : (-1 : Int) ≤ 0).trans (le_max_right n 0)⟩
  unfold fileread at done
  split at done
  next unreadable =>
    cases done
    refine iff_of_true refused fun off content overrun => ?_
    cases unreadable.symm.trans overrun.readable
  next readable =>
    have isReadable : f.readable = true := by
      cases value : f.readable with
      | true => rfl
      | false => exact absurd value readable
    cases kind : f.kind with
    | none =>
      rw [kind] at done
      cases done
    | pipe turns =>
      rw [kind] at done
      obtain ⟨⟨before, after, result⟩, returned, rfl⟩ :=
        Option.map_eq_some_iff.mp done
      refine iff_of_true (piperead_within returned) fun off content overrun => ?_
      cases kind.symm.trans overrun.kind
    | device major turns =>
      rw [kind] at done
      refine iff_of_true ?_ fun off content overrun => by
        cases kind.symm.trans overrun.kind
      dsimp only at done
      split at done
      next =>
        cases done
        exact refused
      next =>
        split at done
        next => cases done
        next reader result returned =>
          cases done
          exact consoleread_within returned
    | inode off content =>
      rw [kind] at done
      dsimp only at done
      by_cases negative : n < 0
      · refine (readi_negative isInt negative done).trans
          ⟨fun fits other its overrun => ?_, fun none both => ?_⟩
        · cases kind.symm.trans overrun.kind
          exact fits ⟨overrun.wraps, overrun.inside, overrun.found, overrun.writable⟩
        · exact none off content ⟨isReadable, kind, negative, both.1,
            both.2.1, both.2.2.1, both.2.2.2⟩
      · refine iff_of_true ?_ fun other its overrun =>
          negative overrun.negative
        have high := isInt.2
        have bound := readi_bound done
        rw [Console.ofInt_toNat (by omega) (by omega)] at bound
        exact ⟨by omega, by omega⟩

/-! A file of one block with three bytes. -/

def shortFile : Content where
  size := 3
  block bn := if bn = 0 then some Block.zero else none

def shortOpen : OpenFile Unit where
  readable := true
  kind := .inode 1 shortFile

theorem fileread_within_shortOpen :
    fileread shortOpen (fun _ => true) 1 = some ⟨[0], 1⟩ ∧ Outcome.Within ⟨[0], 1⟩ 1 := by
  have done : fileread shortOpen (fun _ => true) 1 = some ⟨[0], 1⟩ := by
    decide +kernel
  refine ⟨done, (fileread_within_iff ⟨by decide, by decide⟩ done).mpr ?_⟩
  intro off content overrun
  exact absurd overrun.negative (by decide)

/-- read(fd, p, -2) of a file whose offset is 1 stores the two bytes that are
left. -/
theorem fileread_negative_count : fileread shortOpen (fun _ => true) (-2) = some ⟨[0, 0], 2⟩ := by
  decide +kernel

end Xv6Lottery.Reading
