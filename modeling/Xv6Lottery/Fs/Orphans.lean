import Xv6Lottery.Fs.Boot

namespace Xv6Lottery

/-! What a crash leaves of a file that is open but unlinked. Its iput() is
still to come, and fsinit() makes up for none. -/

/-- The file system as the calls see it, and as it was when the log was last
committed. -/
structure Journaled where
  cached : Fs
  durable : Fs

namespace Journaled

inductive Label where
  | call (label : CallLabel)
  | write (pid : Slot) (fd : Fin nofile)
  | commit

inductive Step : Journaled → Label → Journaled → Prop
  /-- A call between one begin_op() and one end_op(). -/
  | call {fs next durable : Fs} {label : CallLabel} (taken : fs.Step label next)
    (room : fs.Room label.pid label.call) (whole : label.call ≠ .exit) :
    Step ⟨fs, durable⟩ (.call label) ⟨next, durable⟩
  /-- filewrite() changes sizes and blocks, which a `Dinode` leaves out. -/
  | write {state : Journaled} {pid : Slot} {fd : Fin nofile} : Step state (.write pid fd) state
  | commit {fs durable : Fs} : Step ⟨fs, durable⟩ .commit ⟨fs, fs⟩

/-- After a crash: the tables are lost, and recover_from_log() has installed
what was committed. -/
def recovered (state : Journaled) : Fs where
  ninodes := state.durable.ninodes
  inode := state.durable.inode
  itable _ := { ref := 0, valid := false, locked := false }
  ftable _ := { ref := 0, ip := none }
  proc _ := { cwd := none, ofile := fun _ => none }
  space := []

structure Sound (state : Journaled) : Prop where
  cached : Settled state.cached
  durable : Settled state.durable

theorem Sound.step {state next : Journaled} (sound : state.Sound)
    (taken : Step state label next) : next.Sound := by
  cases taken with
  | call taken room => exact ⟨(taken.completes sound.cached room).settled, sound.durable⟩
  | write => exact sound
  | commit => exact ⟨sound.cached, sound.cached⟩

theorem Sound.run {state : Journaled} (wellFormed : start.WellFormed)
    (run : Transition.Run Step ⟨start, start⟩ labels state) : state.Sound :=
  run.invariant Sound ⟨wellFormed.settled, wellFormed.settled⟩ fun sound taken => sound.step taken

end Journaled

theorem Journaled.run_performAll {labels : List CallLabel} {fs next durable : Fs}
    (whole : ∀ label ∈ labels, (∀ fs : Fs, fs.Room label.pid label.call) ∧ label.call ≠ .exit)
    (performed : fs.performAll labels = some next) :
    Transition.Run Step ⟨fs, durable⟩ (labels.map .call ++ [.commit]) ⟨next, next⟩ := by
  induction labels generalizing fs with
  | nil =>
    cases performed
    exact .single .commit
  | cons label rest induction =>
    obtain ⟨middle, first, later⟩ := Option.bind_eq_some_iff.mp performed
    have here := whole label List.mem_cons_self
    have taken : Step ⟨fs, durable⟩ (.call label) ⟨middle, durable⟩ :=
      .call (Fs.perform_step first) (here.1 fs) here.2
    have tail := induction (fun other member => whole other (.tail _ member)) later
    exact (Transition.Run.single taken).trans tail

/-! initproc makes a file and closes it, or unlinks it while it is open. -/

def fileLabels (last : FileCall) : List CallLabel := [byInit (.open ['f'] oCreate), byInit last]

def filed (last : FileCall) : Fs := (bareFs.performAll (fileLabels last)).getD bareFs

theorem filed_run (last : FileCall) (whole : (∀ fs : Fs, fs.Room initproc last) ∧ last ≠ .exit)
    (returns : (bareFs.performAll (fileLabels last)).isSome = true) :
    Transition.Run Journaled.Step ⟨bareFs, bareFs⟩ ((fileLabels last).map .call ++ [.commit])
      ⟨filed last, filed last⟩ := by
  obtain ⟨fs, performed⟩ := Option.isSome_iff_exists.mp returns
  rw [filed, performed]
  refine Journaled.run_performAll ?_ performed
  simpa [fileLabels, byInit, Fs.Room] using whole

end Xv6Lottery
