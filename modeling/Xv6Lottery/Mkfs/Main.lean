import Xv6Lottery.Mkfs.Calls

/-! main() of mkfs.c as a list of calls. -/

namespace Xv6Lottery.Disk

namespace Mkfs

/-- An argument of mkfs: its path, and what read() returns of it until it
returns no more, unless open() fails. -/
structure Input where
  path : List UInt8
  reads : Option (List (List UInt8))

def userDir : List UInt8 := [117, 115, 101, 114, 47]

namespace Input

def shortname (input : Input) : List UInt8 :=
  if input.path.take 5 = userDir then input.path.drop 5 else input.path

def name (input : Input) : List UInt8 :=
  if input.shortname.head? = some 95 then
    input.shortname.tail
  else
    input.shortname

end Input

namespace State

def addFile (state : State) (input : Input) : Option State :=
  if 47 ∈ input.shortname then
    none
  else do
    let reads ← input.reads
    if input.name.length ≤ dirsiz then
      let (inum, state) ← state.ialloc tFile
      let state ← state.iappend rootino (dirent inum input.name)
      reads.foldlM (fun state buf => state.iappend inum buf) state
    else
      none

/-- The size of the root directory becomes a multiple of the block size. -/
def fixRoot (state : State) : Option State := do
  let din ← state.rinode rootino
  state.winode rootino { din with size := (din.size / bsize + 1) * bsize }

end State

def main (files : List Input) : Option State := do
  let (root, state) ← blank.ialloc tDir
  if root = rootino then
    let state ← state.iappend root (dirent root [46])
    let state ← state.iappend root (dirent root [46, 46])
    let state ← files.foldlM State.addFile state
    let state ← state.fixRoot
    state.balloc state.freeblock
  else
    none

/-! No function but ialloc() changes `freeinode`. -/

namespace State

variable {state state' : State}

theorem winode_freeinode (done : state.winode inum ip = some state') :
    state'.freeinode = state.freeinode := by
  unfold winode rsect at done
  split at done
  · cases done
    rfl
  · cases done

theorem direct_freeinode (din : Inode) (i : Fin (ndirect + 1)) :
    (state.direct din i).1.freeinode = state.freeinode := by
  unfold State.direct
  split <;> rfl

theorem indirect_freeinode (done : state.indirect table i = some (state', x)) :
    state'.freeinode = state.freeinode := by
  unfold State.indirect at done
  rw [Option.bind_eq_bind, Option.bind_eq_some_iff] at done
  obtain ⟨buf, _, done⟩ := done
  split at done
  · cases done
    rfl
  · cases done
    rfl

theorem fileBlock_freeinode (done : state.fileBlock din fbn = some (state', d, x)) :
    state'.freeinode = state.freeinode := by
  unfold fileBlock at done
  split at done
  · cases done
    exact direct_freeinode ..
  · simp only [Option.bind_eq_bind, Option.bind_eq_some_iff] at done
    obtain ⟨⟨middle, y⟩, found, same⟩ := done
    cases same
    exact (indirect_freeinode found).trans (direct_freeinode ..)

theorem iappendLoop_freeinode (done : iappendLoop rounds state din off p = some (state', d, off')) :
    state'.freeinode = state.freeinode := by
  induction rounds generalizing state din off p with
  | zero =>
    cases done
    rfl
  | succ rounds induction =>
    rw [iappendLoop] at done
    split at done
    · cases done
      rfl
    dsimp only at done
    split at done
    · rw [Option.bind_eq_bind, Option.bind_eq_some_iff] at done
      obtain ⟨⟨middle, next, x⟩, found, done⟩ := done
      simp only [Option.bind_eq_bind, Option.bind_eq_some_iff] at done
      obtain ⟨buf, _, done⟩ := done
      have first : middle.freeinode = state.freeinode :=
        fileBlock_freeinode found
      exact (induction done).trans first
    · cases done

theorem iappend_freeinode (done : state.iappend inum p = some state') :
    state'.freeinode = state.freeinode := by
  unfold iappend at done
  simp only [Option.bind_eq_bind, Option.bind_eq_some_iff] at done
  obtain ⟨din, _, ⟨middle, next, off⟩, looped, done⟩ := done
  exact (winode_freeinode done).trans (iappendLoop_freeinode looped)

theorem ialloc_inum (done : state.ialloc type = some (inum, state')) :
    inum = state.freeinode ∧ state'.freeinode = state.freeinode + 1 := by
  unfold ialloc at done
  simp only [Option.bind_eq_bind, Option.bind_eq_some_iff] at done
  obtain ⟨next, written, same⟩ := done
  cases same
  exact ⟨rfl, winode_freeinode written⟩

end State

theorem Op.runAll_freeinode (done : Op.runAll state ops = some state') :
    state'.freeinode = Op.inodes state.freeinode ops := by
  induction ops generalizing state with
  | nil =>
    cases done
    rfl
  | cons op rest induction =>
    simp only [Op.runAll, Option.bind_eq_some_iff] at done
    obtain ⟨middle, first, done⟩ := done
    rw [induction done]
    cases op with
    | ialloc type =>
      simp only [Op.run, Option.map_eq_some_iff] at first
      obtain ⟨⟨inum, next⟩, allocated, rfl⟩ := first
      rw [(State.ialloc_inum allocated).2]
      rfl
    | iappend inum p =>
      rw [State.iappend_freeinode first]
      rfl

/-! The calls of main(). -/

theorem Op.runAll_append (state : State) (first second : List Op) :
    Op.runAll state (first ++ second) = (Op.runAll state first).bind fun state => Op.runAll state
      second := by
  induction first generalizing state with
  | nil => rfl
  | cons op rest induction =>
    simp only [List.cons_append, Op.runAll, induction, Option.bind_assoc]

namespace Input

def ops (input : Input) (inum : Nat) : List Op :=
  .ialloc tFile :: .iappend rootino (dirent inum input.name) ::
    (input.reads.getD []).map (.iappend inum)

/-- open() succeeds and the assertions about the name hold. -/
structure Accepted (input : Input) : Prop where
  slash : 47 ∉ input.shortname
  open_ : input.reads.isSome = true
  short : input.name.length ≤ dirsiz

theorem reads_runAll (state : State) (inum : Nat) (reads : List (List UInt8)) :
    reads.foldlM (fun state buf => State.iappend state inum buf) state =
      Op.runAll state (reads.map (.iappend inum)) := by
  induction reads generalizing state with
  | nil => rfl
  | cons buf rest induction =>
    simp only [List.foldlM_cons, List.map_cons, Op.runAll, Op.run, Option.bind_eq_bind, induction]

theorem Accepted.addFile (accepted : input.Accepted) (state : State) :
    state.addFile input = Op.runAll state (input.ops state.freeinode) := by
  obtain ⟨reads, found⟩ := Option.isSome_iff_exists.mp accepted.open_
  unfold State.addFile ops
  rw [if_neg accepted.slash, found, Option.bind_eq_bind, Option.bind_some, if_pos accepted.short]
  simp only [Op.runAll, Op.run, Option.bind_eq_bind, Option.getD_some, reads_runAll]
  cases allocated : state.ialloc tFile with
  | none => rfl
  | some both =>
    obtain ⟨inum, middle⟩ := both
    rw [(State.ialloc_inum allocated).1]
    rfl

theorem accepted_of_addFile {state state' : State} (done : state.addFile input = some state') :
    input.Accepted := by
  unfold State.addFile at done
  split at done
  · cases done
  next slash =>
    simp only [Option.bind_eq_bind, Option.bind_eq_some_iff] at done
    obtain ⟨reads, found, done⟩ := done
    split at done
    next short => exact ⟨slash, by rw [found]; rfl, short⟩
    · cases done

end Input

def filesOps : Nat → List Input → List Op
  | _, [] => []
  | inum, input :: rest => input.ops inum ++ filesOps (inum + 1) rest

def mainOps (files : List Input) : List Op :=
  .ialloc tDir :: .iappend rootino (dirent rootino [46]) ::
    .iappend rootino (dirent rootino [46, 46]) :: filesOps 2 files

theorem inodes_ops (input : Input) (inum next : Nat) (rest : List Op) :
    Op.inodes next (input.ops inum ++ rest) = Op.inodes (next + 1) rest := by
  have chunks : ∀ reads : List (List UInt8),
      Op.inodes (next + 1) (reads.map (.iappend inum) ++ rest) = Op.inodes (next + 1) rest := by
    intro reads
    induction reads with
    | nil => rfl
    | cons buf more induction => exact induction
  exact chunks _

theorem inodes_filesOps (inum next : Nat) (files : List Input) :
    Op.inodes next (filesOps inum files) = next + files.length := by
  induction files generalizing inum next with
  | nil => rfl
  | cons input rest induction =>
    rw [filesOps, inodes_ops, induction, List.length_cons]
    omega

theorem inodes_mainOps (files : List Input) : Op.inodes 1 (mainOps files) = files.length + 2 :=
  (inodes_filesOps 2 2 files).trans (Nat.add_comm ..)

theorem addFiles_runAll (accepted : ∀ input ∈ files, input.Accepted) :
    files.foldlM State.addFile state = Op.runAll state (filesOps state.freeinode files) := by
  induction files generalizing state with
  | nil => rfl
  | cons input rest induction =>
    have first := (accepted input (.head _)).addFile state
    rw [List.foldlM_cons, first, filesOps, Op.runAll_append, Option.bind_eq_bind]
    cases done : Op.runAll state (input.ops state.freeinode) with
    | none => rfl
    | some middle =>
      have next := Op.runAll_freeinode done
      have inodes := inodes_ops input state.freeinode state.freeinode []
      rw [List.append_nil] at inodes
      rw [Option.bind_some, Option.bind_some,
        induction fun input member => accepted input (.tail _ member), next, inodes]
      rfl

theorem accepted_of_addFiles {files : List Input}
    (done : files.foldlM State.addFile state = some state') : ∀ input ∈ files, input.Accepted := by
  induction files generalizing state with
  | nil => exact fun _ member => nomatch member
  | cons input rest induction =>
    rw [List.foldlM_cons, Option.bind_eq_bind, Option.bind_eq_some_iff] at done
    obtain ⟨middle, first, done⟩ := done
    intro other member
    rcases List.mem_cons.mp member with rfl | later
    · exact Input.accepted_of_addFile first
    · exact induction done other later

def finish (state : State) : Option State := do
  let state ← state.fixRoot
  state.balloc state.freeblock

theorem main_runAll (accepted : ∀ input ∈ files, input.Accepted) :
    main files = (Op.runAll blank (mainOps files)).bind finish := by
  unfold main mainOps
  cases allocated : blank.ialloc tDir with
  | none =>
    simp only [Op.runAll, Op.run, allocated]
    rfl
  | some both =>
    obtain ⟨root, state⟩ := both
    obtain ⟨same, next⟩ := State.ialloc_inum allocated
    rw [blank_freeinode] at same next
    subst same
    simp only [Op.runAll, Op.run, allocated, Option.bind_eq_bind,
      Option.bind_some, Option.map_some, rootino, if_true]
    cases first : state.iappend 1 (dirent 1 [46]) with
    | none => rfl
    | some middle =>
      simp only [Option.bind_some]
      cases second : middle.iappend 1 (dirent 1 [46, 46]) with
      | none => rfl
      | some last =>
        have freeinode : last.freeinode = 2 := by
          rw [State.iappend_freeinode second, State.iappend_freeinode first, next]
        simp only [Option.bind_some]
        rw [addFiles_runAll accepted, freeinode]
        rfl

theorem main_some {state : State} (done : main files = some state) :
    (∀ input ∈ files, input.Accepted) ∧ ∃ middle, Op.runAll blank (mainOps files) = some middle ∧
      finish middle = some state := by
  have accepted : ∀ input ∈ files, input.Accepted := by
    unfold main at done
    simp only [Option.bind_eq_bind, Option.bind_eq_some_iff] at done
    obtain ⟨both, _, done⟩ := done
    split at done
    · simp only [Option.bind_eq_some_iff] at done
      obtain ⟨_, _, _, _, _, added, _⟩ := done
      exact accepted_of_addFiles added
    · cases done
  rw [main_runAll accepted, Option.bind_eq_some_iff] at done
  exact ⟨accepted, done⟩

end Mkfs

end Xv6Lottery.Disk
