import Xv6Lottery.Mkfs.Calls

/-! What mkfs appends to its files is what readi() of the kernel returns. -/

namespace Xv6Lottery.Disk

namespace Mkfs

open Concurrent

section Kernel

variable {Agent : Type}

def lockedRead (ip : Fin ninode) (dst : Nat → Nat → Bool) (off n : Nat) :
    FsProg Agent (Option (List UInt8)) := do
  ilock sb ip
  readi sb ip dst off n

theorem lockedRead_sound (sound : Sound state file) {volume : Volume Agent}
    (shown : ∀ b, b ≠ sb.bmapstart → volume.block b = state.image b) (positive : 0 < i)
    (inode : i < state.freeinode) (unread : Unread volume.mem ip i)
    (writable : ∀ start count, dst start count = true) (off n : Nat) :
    Runs self (lockedRead ip dst off n) volume fun result finish => result =
      some (if (off + n) % 2 ^ 32 < off then [] else ((file i).drop off).take n) ∧ finish.logged =
      volume.logged := by
  have bitmap := bmapstart_lt
  have data : ∀ b, nmeta ≤ b → volume.block b = state.image b :=
    fun b late => shown b (by omega)
  obtain ⟨_, placed⟩ := sound.placed.congr data
  have area := sound.area i inode
  have loaded : dinode sb volume.block i = dinode sb state.image i := by
    unfold dinode
    rw [shown _ (by omega)]
  have noHoles := placed.noHoles inode
  have files := placed.files inode
  rw [← loaded] at noHoles files
  unfold lockedRead
  refine .bind ((ilock_unread unread (loaded ▸ sound.allocated i positive inode)).mono ?_)
  rintro _ middle ⟨block, logged, copy⟩
  rw [← copy, ← block] at noHoles files
  refine (readi_filled noHoles).mono ?_
  rintro result finish ⟨rfl, whole⟩
  refine ⟨(whole writable).trans (congrArg some ?_), logged⟩
  rw [files]
  split
  next outside =>
    split
    · rfl
    next inside =>
      have beyond := outside.resolve_right inside
      rw [← content_length finish.block, files] at beyond
      rw [List.drop_eq_nil_of_le beyond.le, List.take_nil]
  next inside => rw [if_neg fun wraps => inside (.inr wraps)]

/-- Whatever the order of the calls, the kernel finds in each inode the bytes
that were appended to it. -/
theorem readi_returns_appended {ops : List Op} (proper : Op.Proper 1 ops)
    (within : Within (Op.inodes 1 ops) (Op.appended ops)) :
    ∃ state, Op.runAll blank ops = some state ∧ state.freeinode = Op.inodes 1 ops ∧
      ∀ (kernel : Kernel Agent) (self : Agent) (ip : Fin ninode) (i : Nat) (dst : Nat → Nat →
        Bool) (off n : Nat), (∀ b, b ≠ sb.bmapstart → kernel.view b = state.image b) → 0 < i → i <
      state.freeinode → Unread kernel.mem ip i → (∀ start count, dst start count = true) → ∃ finish,
      (lockedRead ip dst off n).run (Disk.sem sb) self kernel =
      .done (some (if (off + n) % 2 ^ 32 < off then [] else ((Op.appended ops i).drop off).take n))
      finish := by
  obtain ⟨state, done, sound, freeinode⟩ := runAll_blank proper within
  refine ⟨state, done, freeinode, ?_⟩
  intro kernel self ip i dst off n shown positive inode unread writable
  have runs : Runs self (lockedRead ip dst off n) kernel.volume
      fun result finish => result = some (if (off + n) % 2 ^ 32 < off then []
        else ((Op.appended ops i).drop off).take n) ∧ finish.logged = [] :=
    lockedRead_sound sound shown positive inode unread writable off n
  obtain ⟨answer, finish, _, returns, _, rfl⟩ :=
    Kernel.run_of_reading sb runs
  exact ⟨finish, returns⟩

end Kernel

/-! A root directory and a file of two blocks, written in turns. -/

def demoOps : List Op :=
  [.ialloc tDir, .iappend 1 (dirent 1 [46]), .ialloc tFile,
    .iappend 2 (List.replicate 1000 7), .iappend 1 (dirent 2 [97]),
    .iappend 2 (List.replicate 40 8)]

def bootKernel (image : Nat → Block) : Kernel (Fin 1) where
  cache := fun _ => none
  disk := image
  pinned := fun _ => false
  spoilt := fun _ => false
  lh := []
  outstanding := 0
  committing := false
  mem := {
    itable := fun _ =>
      { key := ⟨rootdev, 2⟩
        ref := 1
        lock := none
        valid := false
        copy := .cleared 0 }
    ftable := fun _ =>
      { ref := 0
        kind := .none
        readable := false
        writable := false
        ip := 0
        off := 0
        major := 0 }
    ofile := fun _ _ => none
    cwd := fun _ => 0 }

theorem demoOps_proper : Op.Proper 1 demoOps :=
  ⟨by decide, by decide, by decide, by decide, by decide, by decide,
    by decide, by decide, trivial⟩

theorem demoOps_small (i : Nat) : (Op.appended demoOps i).length ≤ maxfile * bsize := by
  by_cases known : i < 3
  · have all : ∀ i < 3, (Op.appended demoOps i).length ≤ maxfile * bsize := by
      decide +kernel
    exact all i known
  · rw [Op.appended_outside demoOps_proper (.inr (Nat.not_lt.mp known))]
    exact Nat.zero_le _

theorem demoOps_read_across_blocks :
    ∃ state, Op.runAll blank demoOps = some state ∧ ∃ finish,
      (lockedRead 0 (fun _ _ => true) 998 30).run (Disk.sem sb) 0 (bootKernel state.image) =
      .done (some (List.replicate 2 7 ++ List.replicate 28 8)) finish := by
  obtain ⟨state, done, freeinode, reads⟩ :=
    @readi_returns_appended (Fin 1) demoOps demoOps_proper ⟨demoOps_small, by decide +kernel⟩
  refine ⟨state, done, ?_⟩
  obtain ⟨finish, returns⟩ := reads (bootKernel state.image) 0 0 2
    (fun _ _ => true) 998 30 (fun _ _ => rfl) (by decide)
    (by rw [freeinode]; decide) ⟨Nat.lt_irrefl 1, rfl, rfl, rfl⟩
    (fun _ _ => rfl)
  have bytes : (if (998 + 30) % 2 ^ 32 < 998 then []
      else ((Op.appended demoOps 2).drop 998).take 30) =
        List.replicate 2 7 ++ List.replicate 28 8 := by
    decide +kernel
  rw [bytes] at returns
  exact ⟨finish, returns⟩

end Mkfs

end Xv6Lottery.Disk
