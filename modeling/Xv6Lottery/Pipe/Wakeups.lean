import Xv6Lottery.Pipe.Code
import Xv6Lottery.Sleep.Assertions
import Xv6Lottery.Sleep.Execution
import Xv6Lottery.Sleep.Monitor

/-! The wakeups of pipe.c. A pipewrite() that is killed returns without a
wakeup() for the bytes that it has stored. -/

namespace Xv6Lottery.Pipes

open Sleep Transition
open Function (update_of_ne update_self)

section Ends

variable {Process : Type}

/-- In piperead() a process has the read end open; pipeclose() comes when none
has it. -/
def readEnd : Assertions Process (Shared Process) Point where
  shared data := data.pipe.readopen = false → ∀ slot, data.openBy .read slot = false
  asserts
    | self, .reading _ _, data | self, .readTest _ _, data
    | self, .readKilled _ _, data | self, .readSleep _ _, data
    | self, .readByte _ _ _, data => data.openBy .read self = true
    | _, .closing .read, data | _, .closeFlag .read, data =>
      ∀ slot, data.openBy .read slot = false
    | _, _, _ => True

/-- Processes lose ends, and one process does not lose the end of another. -/
structure Kept (actor : Process) (data changed : Shared Process) : Prop where
  lost : ∀ {slot}, data.openBy .read slot = false → changed.openBy .read slot = false
  others : ∀ {slot}, slot ≠ actor → data.openBy .read slot = true → changed.openBy .read slot = true

theorem Kept.of_eq (same : changed.openBy = data.openBy) : Kept self data changed := by
  constructor <;> rw [same]
  · exact id
  · exact fun _ => id

theorem Kept.asserts (kept : Kept self data changed) (differs : other ≠ self)
    (asserts : readEnd.asserts other point data) : readEnd.asserts other point changed := by
  cases point with
  | reading => exact kept.others differs asserts
  | readTest => exact kept.others differs asserts
  | readKilled => exact kept.others differs asserts
  | readSleep => exact kept.others differs asserts
  | readByte => exact kept.others differs asserts
  | closing side =>
    cases side with
    | read => exact fun slot => kept.lost (asserts slot)
    | write => trivial
  | closeFlag side =>
    cases side with
    | read => exact fun slot => kept.lost (asserts slot)
    | write => trivial
  | _ => trivial

variable [FinEnum Process]

theorem fileclose_kept (side : End) (self : Process)
    (data : Shared Process) : Kept self data (fileclose side self data).1 := by
  unfold fileclose
  split
  next =>
    cases side with
    | read =>
      constructor
      · intro slot lost
        dsimp only
        rw [update_self]
        by_cases same : slot = self
        · rw [same, update_self]
        · rw [update_of_ne same]
          exact lost
      · intro slot differs opens
        dsimp only
        rw [update_self, update_of_ne differs]
        exact opens
    | write =>
      have apart : End.read ≠ End.write := nofun
      constructor
      · intro slot lost
        dsimp only
        rw [update_of_ne apart]
        exact lost
      · intro slot _ opens
        dsimp only
        rw [update_of_ne apart]
        exact opens
  next => exact .of_eq rfl

theorem fileclose_last (side : End) (self : Process) (data : Shared Process) :
    readEnd.asserts self (fileclose side self data).2 (fileclose side self data).1 := by
  unfold fileclose
  split
  next =>
    dsimp only
    split
    next => trivial
    next none =>
      cases side with
      | read =>
        intro slot
        have all := List.any_eq_false.mp (Bool.eq_false_iff.mpr none) slot (FinEnum.mem_toList slot)
        exact Bool.eq_false_iff.mpr all
      | write => trivial
  next => trivial

theorem readEnd_fits (allowed : Call → Prop) (point : Point) :
    readEnd.Fits point (code allowed point : Instr Process Unit Channel (Shared Process) Point)
      := by
  have stays : ∀ {self other : Process} {place : Point}
      {data changed : Shared Process}, changed.openBy = data.openBy →
      other ≠ self → readEnd.asserts other place data → readEnd.asserts other place changed :=
    fun same differs => (Kept.of_eq same).asserts differs
  cases point with
  | home result =>
    rintro self data next _ _ ⟨call, _, rfl⟩
    trivial
  | entering call =>
    cases call with
    | pipewrite n source =>
      intro self data shared _
      refine ⟨shared, ?_, stays rfl⟩
      unfold argfd
      dsimp only
      split <;> trivial
    | piperead n sink =>
      intro self data shared _
      refine ⟨shared, ?_, stays rfl⟩
      unfold argfd
      dsimp only
      split
      next opens => exact opens
      next => trivial
    | close side =>
      intro self data shared _
      have kept := fileclose_kept side self data
      refine ⟨fun closed slot => kept.lost (shared ?_ slot), fileclose_last side self data,
        fun differs => kept.asserts differs⟩
      unfold fileclose at closed
      split at closed <;> exact closed
    | kill pid =>
      exact fun self data shared _ => ⟨shared, trivial, stays rfl⟩
  | writeTest n source i stored =>
    intro self data shared _
    refine ⟨shared, ?_, stays rfl⟩
    dsimp only
    split
    · split <;> trivial
    · trivial
  | writeKilled n source i stored =>
    intro self data answer _
    dsimp only
    split <;> trivial
  | writeByte n source i stored =>
    intro self data shared _
    dsimp only
    unfold writeStep
    split
    · exact ⟨shared, trivial, stays rfl⟩
    · split <;> exact ⟨shared, trivial, stays rfl⟩
  | readTest n sink =>
    intro self data shared opens
    refine ⟨shared, ?_, stays rfl⟩
    dsimp only
    split <;> exact opens
  | readKilled n sink =>
    intro self data answer opens
    dsimp only
    split
    · trivial
    · exact opens
  | readByte n sink i =>
    intro self data shared opens
    dsimp only
    unfold readStep
    split
    · split
      · exact ⟨shared, trivial, stays rfl⟩
      · split
        · exact ⟨shared, opens, stays rfl⟩
        · exact ⟨shared, trivial, stays rfl⟩
    · exact ⟨shared, trivial, stays rfl⟩
  | closing side => cases side <;> exact fun _ _ => id
  | closeFlag side =>
    intro self data shared none
    cases side with
    | read => exact ⟨fun _ => none, trivial, stays rfl⟩
    | write => exact ⟨shared, trivial, stays rfl⟩
  | closeWake side => cases side <;> exact fun _ _ _ => trivial
  | closeTest =>
    exact fun self data shared _ => ⟨shared, trivial, stays rfl⟩
  | closeLeave last => cases last <;> exact fun _ _ _ => trivial
  | freeing =>
    rintro self data next _ _ rfl
    trivial
  | reading n sink => exact fun _ _ opens => opens
  | readSleep n sink => exact fun _ _ opens => opens
  | killing pid => exact fun _ _ _ _ => trivial
  | _ => exact fun _ _ _ => trivial

end Ends

section Monitor

variable {Process : Type}

/-- What a process may wait for. A reader that waits has the read end open, so
the second part of the first condition never holds for it. -/
def Pipe.Awaited (pipe : Pipe) : Channel → Prop
  | .nread => pipe.Empty ∧ pipe.writeopen = true ∨ pipe.readopen = false
  | .nwrite => pipe.Full ∧ pipe.readopen = true

/-- What a process with the lock knows of the pipe. -/
def Point.Knows (pipe : Pipe) : Point → Prop
  | .writeKilled _ _ _ _ | .writeByte _ _ _ _ => pipe.readopen = true
  | .writeFull _ _ _ _ | .writeSleep _ _ _ =>
    pipe.Full ∧ pipe.readopen = true
  | .readKilled _ _ | .readSleep _ _ =>
    pipe.Empty ∧ pipe.writeopen = true
  | _ => True

def pipeOutline (Process : Type) : Outline Channel (Shared Process) Point where
  inside
    | .home _ | .entering _ | .writing _ _ | .reading _ _ | .closing _
    | .freeing | .killing _ => False
    | _ => True
  asserts point data := point.Knows data.pipe
  owes
    | .writeTest _ _ _ stored, chan | .writeKilled _ _ _ stored, chan
    | .writeByte _ _ _ stored, chan | .writeFull _ _ _ stored, chan =>
      stored = true ∧ chan = .nread
    | .writeWake _, chan | .closeWake .write, chan => chan = .nread
    | .readByte _ _ _, chan | .readWake _, chan | .closeWake .read, chan =>
      chan = .nwrite
    | _, _ => False

def Awaited (chan : Channel) (data : Shared Process) : Prop :=
  data.pipe.Awaited chan

/-- killed() answers 0 to a pipewrite() that owes a wakeup(). -/
def Spares : Point → Bool → Prop
  | .writeKilled _ _ _ stored, killed => stored = true → killed = false
  | _, _ => True

theorem pipeOutline_frame (same : changed.pipe = data.pipe) :
    (∀ point, (pipeOutline Process).asserts point data →
        (pipeOutline Process).asserts point changed) ∧ ∀ chan, True → Awaited chan data →
      Awaited chan changed := by
  constructor
  · intro point knows
    change point.Knows changed.pipe
    rw [same]
    exact knows
  · intro chan _ awaited
    unfold Awaited
    rw [same]
    exact awaited

theorem writeStep_inside (n : Int) (source : Nat → Option UInt8) (i : Nat)
    (stored : Bool) (data : Shared Process) :
    (pipeOutline Process).inside (writeStep n source i stored data).2 := by
  unfold writeStep
  split
  · trivial
  · split <;> trivial

theorem writeStep_fits (n : Int) (source : Nat → Option UInt8) (i : Nat) (stored : Bool)
    (data : Shared Process) (opens : data.pipe.readopen = true) :
    (pipeOutline Process).asserts (writeStep n source i stored data).2
      (writeStep n source i stored data).1 ∧ ∀ chan, Awaited chan data ∨ stored = true ∧ chan =
      .nread → Awaited chan (writeStep n source i stored data).1 ∨
      (pipeOutline Process).owes (writeStep n source i stored data).2 chan := by
  unfold writeStep
  split
  next full => exact ⟨⟨full, opens⟩, fun _ => id⟩
  next room =>
    split
    next => exact ⟨trivial, fun _ => .imp_right And.right⟩
    next ch _ =>
      refine ⟨trivial, fun chan waits => .inr ⟨rfl, ?_⟩⟩
      cases chan with
      | nread => rfl
      | nwrite =>
        rcases waits with awaited | ⟨_, other⟩
        · exact (room awaited.1).elim
        · cases other

theorem readStep_fits (n : Int) (sink : Nat → Bool) (i : Nat) (data : Shared Process) :
    (pipeOutline Process).inside (readStep n sink i data).2 ∧
      (pipeOutline Process).asserts (readStep n sink i data).2 (readStep n sink i data).1 ∧ ∀ chan,
      Awaited chan data ∨ chan = .nwrite → Awaited chan (readStep n sink i data).1 ∨
      (pipeOutline Process).owes (readStep n sink i data).2 chan := by
  have advance : ¬data.pipe.Empty → ∀ {returned}, ∀ chan, Awaited chan data ∨ chan = .nwrite →
        Awaited chan { data with
          pipe := data.pipe.advance
          returned := returned } ∨ chan = .nwrite := by
    intro some returned chan waits
    cases chan with
    | nwrite => exact .inr rfl
    | nread =>
      rcases waits with (⟨none, _⟩ | closed) | other
      · exact (some none).elim
      · exact .inl (.inr closed)
      · cases other
  unfold readStep
  split
  next =>
    split
    next => exact ⟨trivial, trivial, fun _ => id⟩
    next some =>
      split <;> exact ⟨trivial, trivial, advance some⟩
  next => exact ⟨trivial, trivial, fun _ => id⟩

variable [FinEnum Process]

theorem pipe_fits (allowed : Call → Prop) (point : Point) :
    (pipeOutline Process).Fits () (fun _ => True) Awaited Spares point
      (code allowed point : Instr Process Unit Channel (Shared Process) Point) := by
  cases point with
  | home result =>
    rintro next ⟨call, _, rfl⟩
    exact ⟨Iff.rfl, fun out => out.elim, fun owed => owed.elim⟩
  | entering call =>
    have entered : ∀ {use : Process → Shared Process → Shared Process × Point},
        (∀ self data, (use self data).1.pipe = data.pipe) → (∀ self data,
          ¬(pipeOutline Process).inside (use self data).2) →
        (pipeOutline Process).Fits () (fun _ => True) Awaited Spares (.entering call) (.access use :
            Instr Process Unit Channel (Shared Process) Point) := by
      intro use same out self data
      exact ⟨⟨fun inside => (out self data inside).elim,
        fun inside => inside.elim⟩, fun inside => inside.elim,
        fun _ => pipeOutline_frame (same self data)⟩
    cases call with
    | pipewrite n source =>
      refine entered (fun _ _ => rfl) fun self data => ?_
      unfold argfd
      dsimp only
      split <;> exact id
    | piperead n sink =>
      refine entered (fun _ _ => rfl) fun self data => ?_
      unfold argfd
      dsimp only
      split <;> exact id
    | close side =>
      refine entered (fun self data => ?_) fun self data => ?_
      · unfold fileclose
        split <;> rfl
      · unfold fileclose
        split
        · dsimp only
          split <;> exact id
        · exact id
    | kill pid => exact entered (fun _ _ => rfl) fun _ _ => id
  | writing n source =>
    exact ⟨fun _ => ⟨id, trivial, fun _ => trivial⟩, fun other => (other rfl).elim⟩
  | writeTest n source i stored =>
    intro self data
    refine ⟨?_, fun _ _ => ?_, fun out => (out trivial).elim⟩
    · dsimp only
      split
      · split <;> exact Iff.rfl
      · exact Iff.rfl
    · dsimp only
      split
      · split
        next opens => exact ⟨opens, fun _ _ => id⟩
        next closed =>
          refine ⟨trivial, fun chan _ waits => .inl ?_⟩
          rcases waits with awaited | ⟨_, rfl⟩
          · exact awaited
          · exact .inr (Bool.eq_false_iff.mpr closed)
      · exact ⟨trivial, fun _ _ => .imp_right And.right⟩
  | writeKilled n source i stored =>
    intro answer spares
    cases answer with
    | false => exact ⟨Iff.rfl, fun _ opens => opens, fun owed => owed⟩
    | true =>
      refine ⟨Iff.rfl, fun _ _ => trivial, fun owed => ?_⟩
      cases spares owed.1
  | writeByte n source i stored =>
    intro self data
    refine ⟨?_, fun _ opens => ?_, fun out => (out trivial).elim⟩
    · exact ⟨fun _ => trivial, fun _ => writeStep_inside n source i stored data⟩
    · have ⟨asserts, owes⟩ :=
        writeStep_fits n source i stored data opens
      exact ⟨asserts, fun chan _ => owes chan⟩
  | writeFull n source i stored =>
    exact ⟨Iff.rfl, fun _ _ full => full, fun _ owed => .inl owed.2⟩
  | writeSleep n source i =>
    exact ⟨⟨⟨fun _ => rfl, fun _ => trivial⟩, fun _ _ => trivial⟩,
      ⟨fun _ => rfl, fun _ => trivial⟩, fun _ => rfl,
      fun _ => ⟨fun _ full _ => full, fun _ _ => id⟩⟩
  | writeWake i => exact ⟨Iff.rfl, fun _ _ _ => trivial, fun _ => .inl⟩
  | reading n sink =>
    exact ⟨fun _ => ⟨id, trivial, fun _ => trivial⟩, fun other => (other rfl).elim⟩
  | readTest n sink =>
    intro self data
    refine ⟨?_, fun _ _ => ?_, fun out => (out trivial).elim⟩
    · dsimp only
      split <;> exact Iff.rfl
    · dsimp only
      split
      next waits => exact ⟨waits, fun _ _ => id⟩
      next => exact ⟨trivial, fun _ _ waits => .inl (waits.resolve_right id)⟩
  | readKilled n sink =>
    intro answer _
    cases answer with
    | false => exact ⟨Iff.rfl, fun _ waits => waits, fun owed => owed⟩
    | true => exact ⟨Iff.rfl, fun _ _ => trivial, fun owed => owed⟩
  | readSleep n sink =>
    exact ⟨⟨⟨fun _ => rfl, fun _ => trivial⟩, fun _ _ => trivial⟩,
      ⟨fun _ => rfl, fun _ => trivial⟩, fun _ => rfl,
      fun _ => ⟨fun _ waits _ => .inl waits, fun _ _ => id⟩⟩
  | readByte n sink i =>
    intro self data
    have ⟨inside, asserts, owes⟩ := readStep_fits n sink i data
    exact ⟨⟨fun _ => trivial, fun _ => inside⟩, fun _ _ => ⟨asserts, fun chan _ => owes chan⟩,
      fun out => (out trivial).elim⟩
  | readWake i => exact ⟨Iff.rfl, fun _ _ _ => trivial, fun _ => .inl⟩
  | leaving side result =>
    exact ⟨fun _ => ⟨trivial, id, fun _ _ => id⟩, fun other => (other rfl).elim⟩
  | closing side =>
    exact ⟨fun _ => ⟨id, trivial, fun _ => trivial⟩, fun other => (other rfl).elim⟩
  | closeFlag side =>
    intro self data
    refine ⟨Iff.rfl, fun _ _ => ⟨trivial, fun chan _ waits => ?_⟩, fun out => (out trivial).elim⟩
    cases side with
    | read =>
      cases chan with
      | nread => exact .inl (.inr rfl)
      | nwrite => exact .inr rfl
    | write =>
      cases chan with
      | nread => exact .inr rfl
      | nwrite => exact .inl (waits.resolve_right id)
  | closeWake side =>
    cases side <;> exact ⟨Iff.rfl, fun _ _ _ => trivial, fun _ => .inl⟩
  | closeTest =>
    exact fun self data => ⟨Iff.rfl,
      fun _ _ => ⟨trivial, fun _ _ => id⟩, fun out => (out trivial).elim⟩
  | closeLeave last =>
    refine ⟨fun _ => ⟨trivial, ?_, fun _ _ => id⟩, fun other => (other rfl).elim⟩
    cases last <;> exact id
  | freeing =>
    rintro next rfl
    exact ⟨Iff.rfl, fun out => out.elim, fun owed => owed.elim⟩
  | killing pid =>
    exact fun _ => ⟨Iff.rfl, fun out => out.elim, fun owed => owed.elim⟩

end Monitor

/-- With the lock free, who sleeps has a reason to. -/
def NoLostWakeup {Process Cpu : Type}
    (machine : Sleep.Machine Process Cpu Unit Channel (Shared Process) Point) :
    Prop :=
  machine.lock (.named ()) = none → ∀ slot, ((machine.procs slot).SleepsOn .nread →
      machine.data.pipe.nread = machine.data.pipe.nwrite ∧ machine.data.pipe.writeopen = true) ∧
    ((machine.procs slot).SleepsOn .nwrite → machine.data.pipe.nwrite =
          machine.data.pipe.nread + UInt32.ofNat pipesize ∧ machine.data.pipe.readopen = true)

abbrev calls {Process : Type} [FinEnum Process] :
    Point → Instr Process Unit Channel (Shared Process) Point :=
  code fun _ => True

section Run

variable {Process Cpu : Type} [FinEnum Process] [DecidableEq Cpu]
  {boot final : Sleep.Machine Process Cpu Unit Channel (Shared Process) Point}
  {labels : List (Label Process Unit Channel)}

omit [DecidableEq Cpu] in
theorem reader_open (coherent : Coherent final) (comes : ∀ slot, (final.threads slot).phase.Comes
      (calls : Point → Instr Process Unit Channel (Shared Process) Point))
    (ends : readEnd.Holds final) (sleeps : (final.procs slot).SleepsOn .nread) :
    final.data.pipe.readopen = true := by
  obtain ⟨chan, lk, next, here, on⟩ := coherent.asleep sleeps.1
  have call := comes slot
  have opens := ends.asserts slot
  rw [here] at call opens
  cases sleeps.2.symm.trans on
  obtain ⟨point, found⟩ := call
  rcases sleeps_at found with ⟨n, sink, _, rfl⟩ | ⟨_, _, _, other, _⟩
  · by_contra closed
    have none := ends.shared (Bool.eq_false_iff.mpr closed) slot
    cases none.symm.trans opens
  · cases other

theorem pipe_wakeups_unless_killed {page : Fin pipesize → UInt8}
    {openBy : End → Process → Bool} (boots : boot.Boot fun _ => .home 0)
    (fresh : boot.data = { pipe := .alloc page, openBy := openBy })
    (run : Run (fun machine label after =>
      Answered calls Spares machine ∧ machine.Step calls label after)
      boot labels final) :
    NoLostWakeup final := by
  have steps : Run (Sleep.Machine.Step calls) boot labels final :=
    run.mono And.right
  have monitored : Monitored (pipeOutline Process) () (fun _ => True) Awaited final :=
    .run (pipe_fits fun _ => True) boots (fun _ => id) run
  have ends : readEnd.Holds final := by
    refine .run (readEnd_fits fun _ => True) boots ?_ (fun _ => trivial) steps
    rw [fresh]
    nofun
  intro free slot
  refine ⟨fun sleeps => ?_, fun sleeps => ?_⟩
  · rcases monitored.cond_of_free free trivial sleeps with waits | closed
    · exact waits
    · have opens := reader_open monitored.coherent (comes_run boots steps) ends sleeps
      cases closed.symm.trans opens
  · exact monitored.cond_of_free free trivial sleeps

end Run

/-! A process waits for a byte, another one stores it and is killed before it
wakes up the reader. -/

namespace Stranded

def pick : Point → Nat → Option Point
  | .home _, 0 => some (.entering (.pipewrite 2 fun _ => some 7))
  | .home _, 1 => some (.entering (.piperead 1 fun _ => true))
  | .home _, 2 => some (.entering (.kill 2))
  | _, _ => none

abbrev three : Point → Instr (Fin 3) Unit Channel (Shared (Fin 3)) Point :=
  calls

theorem pick_sound {options : Point → Prop} (found : three point = .choose options)
    (picked : pick point choice = some next) : options next := by
  unfold pick at picked
  split at picked
  case h_4 => cases picked
  all_goals
    cases found
    cases picked
    exact ⟨_, trivial, rfl⟩

def boot : Sleep.Machine (Fin 3) (Fin 2) Unit Channel (Shared (Fin 3)) Point where
  procs slot := ⟨.runnable, none, false, slot + 1⟩
  lock _ := none
  cpus _ := .idle
  threads _ := ⟨.code (.home 0), true⟩
  data :=
    { pipe := .alloc fun _ => 5
      openBy := fun
        | .read, slot => slot = 0
        | .write, slot => slot = 1 }

theorem boots : boot.Boot fun _ => .home 0 :=
  ⟨fun _ => rfl, fun _ => rfl, fun _ => rfl, fun _ => rfl⟩

def waits : List (Action (Fin 3) (Fin 2) Channel) :=
  [.dispatch 0 0, .resume 0, .thread 0 1] ++ List.replicate 7 (.thread 0 0) ++ [.finish 0]

def stores : List (Action (Fin 3) (Fin 2) Channel) :=
  [.dispatch 1 1, .resume 1] ++ List.replicate 6 (.thread 1 0)

def killed : List (Action (Fin 3) (Fin 2) Channel) :=
  [.dispatch 0 2, .resume 0, .thread 0 2] ++
    List.replicate 4 (.thread 0 0) ++ List.replicate 3 (.thread 1 0)

def goesOn : List (Action (Fin 3) (Fin 2) Channel) :=
  List.replicate 10 (.thread 1 0)

def stranded := boot.played three pick (waits ++ stores ++ killed)

def woken := boot.played three pick (waits ++ stores ++ goesOn)

end Stranded

open Stranded in
theorem killed_writer_strands_reader :
    (∃ labels, Run (Sleep.Machine.Step three) boot labels stranded) ∧ ¬NoLostWakeup stranded := by
  refine ⟨⟨_, Sleep.Machine.played_run pick_sound (by decide +kernel)⟩, ?_⟩
  intro sound
  have free : stranded.lock (.named ()) = none := by decide +kernel
  have sleeps : (stranded.procs 0).SleepsOn .nread :=
    ⟨by decide +kernel, by decide +kernel⟩
  have same := ((sound free 0).1 sleeps).1
  revert same
  decide +kernel

open Stranded in
theorem pipe_wakeups_written :
    woken.lock (.named ()) = none ∧ (woken.procs 0).state = .runnable ∧ NoLostWakeup woken := by
  have run : Run (Sleep.Machine.Step three) boot
      (boot.trace three pick (waits ++ stores ++ goesOn)) woken :=
    Sleep.Machine.played_run pick_sound (by decide +kernel)
  have alive := run.restrict (fun label => ∀ self victim, label ≠ .kill self victim)
    (fun machine => ∀ slot, (machine.procs slot).killed = false)
    (fun _ => rfl) (fun {middle event next} quiet before taken slot => by
      rcases taken.killed_kept slot with same | ⟨self, called⟩
      · rw [same]
        exact before slot
      · exact (quiet self slot called).elim)
    (by decide +kernel)
  refine ⟨by decide +kernel, by decide +kernel, ?_⟩
  refine pipe_wakeups_unless_killed boots rfl (alive.mono ?_)
  rintro middle label next ⟨⟨_, none⟩, taken⟩
  refine ⟨fun slot point after _ _ => ?_, taken⟩
  unfold Spares
  split
  · exact fun _ => none slot
  · trivial

end Xv6Lottery.Pipes
