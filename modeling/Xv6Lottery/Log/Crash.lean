import Xv6Lottery.Log.Recovery

namespace Xv6Lottery.LogSystem

open DiskProgram Transition

/-- What each mode of the system promises about the disk and the cache. -/
def Sound (log : Log) (initial : Disk) (ledger : Ledger) (system : LogSystem) : Prop :=
  match system.mode with
  | .recovering program =>
    log.Spec initial program (fun _ => log.Collecting initial []) ledger system.machine
  | .collecting header => log.Collecting initial header ledger system.machine
  | .committing program =>
    log.Spec initial program (fun _ => log.Collecting initial []) ledger system.machine
  | .panicked => log.Consistent initial ledger system.machine

theorem Sound.consistent {system : LogSystem} (sound : system.Sound log initial ledger) :
    log.Consistent initial ledger system.machine := by
  obtain ⟨device, activity⟩ := system
  cases activity with
  | recovering program => exact Prog.wp_always sound
  | collecting header => exact Log.Collecting.consistent sound
  | committing program => exact Prog.wp_always sound
  | panicked => exact sound

theorem boot_sound (settled : ledger.pending = [])
    (recoverable : log.Recoverable (ledger.durable initial) disk) :
    (boot log disk).Sound log initial ledger := by
  refine Prog.wp_mono ?_ (Log.recoverFromLog_spec recoverable)
  intro _ seen device idle
  exact idle.collecting settled

theorem observe_ofLabel (log : Log) (ledger : Ledger) (label : Option (Nat × Block)) :
    ledger.observe log (.ofLabel label) = Prog.observed (Ledger.observeWrite log) ledger label := by
  cases label <;> rfl

theorem Step.sound {system system' : LogSystem} (sound : system.Sound log initial ledger)
    (taken : Step log system event system') :
    system'.Sound log initial (ledger.observe log event) := by
  cases taken with
  | recover taken =>
    rw [observe_ofLabel]
    exact Prog.wp_step sound taken
  | recovered => exact sound.2
  | logWrite outside number room =>
    exact Log.Collecting.logWrite sound outside number room _
  | logWriteTooBig full => exact Log.Collecting.consistent sound
  | endOp => exact Log.commit_spec sound
  | commit taken =>
    rw [observe_ofLabel]
    exact Prog.wp_step sound taken
  | committed => exact sound.2
  | evict unpinned =>
    rw [sound.consistent.1.evict_eq unpinned]
    exact sound
  | crash => exact boot_sound rfl sound.consistent.2

theorem ofEvents_append (log : Log) (events : List LogEvent) (event : LogEvent) :
    Ledger.ofEvents log (events ++ [event]) = (Ledger.ofEvents log events).observe log event := by
  simp [Ledger.ofEvents]

theorem clean_recoverable {log : Log} (clean : LogHeader.count (disk log.start) = 0) :
    log.Recoverable disk disk :=
  ⟨[], LogHeader.load_eq_nil clean, Nat.zero_le _, by simp, by simp,
    fun _ _ _ => rfl⟩

theorem run_sound {log : Log} (clean : LogHeader.count (disk log.start) = 0)
    (run : Run (Step log) (boot log disk) events system) :
    system.Sound log disk (Ledger.ofEvents log events) := by
  apply run.history fun events system =>
    system.Sound log disk (Ledger.ofEvents log events)
  · exact boot_sound rfl (clean_recoverable clean)
  · intro past system event system' _ sound taken
    rw [ofEvents_append]
    exact taken.sound sound

/-- Crash atomicity, with a crash between any two disk writes: whenever no
recovery or commit is in progress, the home blocks hold the initial disk with
exactly the transactions applied, in order, whose commit record reached the
disk. -/
theorem home_blocks_eq_durable {log : Log} {disk : Disk} {events : List LogEvent}
    {system : LogSystem} {header : LogHeader} (clean : LogHeader.count (disk log.start) = 0)
    (run : Run (Step log) (boot log disk) events system)
    (settled : system.mode = .collecting header) {block : Nat} (outside : ¬ log.InArea block) :
    system.machine.disk block = (Ledger.ofEvents log events).durable disk block := by
  have sound := run_sound clean run
  obtain ⟨device, activity⟩ := system
  subst settled
  exact sound.represents.rest block outside (by simp)

/-- Recovery is a finite program: left alone it runs to completion. -/
theorem recovery_completes (log : Log) (program : BlockProg Unit) (device : Machine Nat Block) :
    ∃ events device', Run (Step log) ⟨device, .recovering program⟩ events ⟨device',
        .collecting []⟩ := by
  induction program generalizing device with
  | ret outcome => exact ⟨_, device, .single .recovered⟩
  | read block next induction =>
    obtain ⟨events, device', run⟩ := induction (device.buf block) device
    exact ⟨_, device', (Run.single (.recover .read)).trans run⟩
  | write block contents next induction =>
    obtain ⟨events, device', run⟩ := induction (device.write block contents)
    exact ⟨_, device', (Run.single (.recover .write)).trans run⟩
  | unpin block next induction =>
    obtain ⟨events, device', run⟩ := induction (device.unpin block)
    exact ⟨_, device', (Run.single (.recover .unpin)).trans run⟩

/-- A fresh disk, one update, a crash before the commit, and a recovery: the
update is gone. -/
theorem home_blocks_eq_durable_after_crash : let log : Log := ⟨2, logSize⟩
    let zero : Block := .replicate bsize 0
    ∃ events system header, Run (Step log) (boot log fun _ => zero) events system ∧
        system.mode = .collecting header ∧ system.machine.disk 100 =
          (Ledger.ofEvents log events).durable (fun _ => zero) 100 := by
  intro log zero
  obtain ⟨first, device, booted⟩ := recovery_completes log
    log.recoverFromLog (.powerOn fun _ => zero)
  have updated : Step log ⟨device, .collecting []⟩ (.update 100 (.replicate bsize 1)) _ :=
    .logWrite (by decide) (by decide) (by decide)
  obtain ⟨second, device', recovered⟩ := recovery_completes log
    log.recoverFromLog (.powerOn device.disk)
  have run := ((booted.tail updated).tail .crash).trans recovered
  refine ⟨_, _, _, run, rfl, ?_⟩
  exact home_blocks_eq_durable (by decide) run rfl (by decide)

end Xv6Lottery.LogSystem
