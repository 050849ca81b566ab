import Xv6Lottery.Mkfs.Files

/-! Calls of ialloc() and iappend(), in any order. -/

namespace Xv6Lottery.Disk

open Function

namespace Mkfs

inductive Op where
  | ialloc (type : BitVec 16)
  | iappend (inum : Nat) (p : List UInt8)

namespace Op

def run (state : State) : Op → Option State
  | .ialloc type => (state.ialloc type).map Prod.snd
  | .iappend inum p => state.iappend inum p

def runAll : State → List Op → Option State
  | state, [] => some state
  | state, op :: rest => (op.run state).bind fun state => runAll state rest

def appended (ops : List Op) (i : Nat) : List UInt8 :=
  ops.flatMap fun
    | .ialloc _ => []
    | .iappend inum p => if inum = i then p else []

def inodes : Nat → List Op → Nat
  | next, [] => next
  | next, .ialloc _ :: rest => inodes (next + 1) rest
  | next, .iappend _ _ :: rest => inodes next rest

def Proper : Nat → List Op → Prop
  | _, [] => True
  | next, .ialloc type :: rest =>
    type ≠ 0 ∧ sb.iblock next < sb.bmapstart ∧ Proper (next + 1) rest
  | next, .iappend inum _ :: rest =>
    (0 < inum ∧ inum < next) ∧ Proper next rest

theorem appended_cons (op : Op) (rest : List Op) (i : Nat) :
    appended (op :: rest) i = appended [op] i ++ appended rest i := by
  simp only [appended, List.flatMap_cons, List.flatMap_nil, List.append_nil]

theorem le_inodes (next : Nat) (ops : List Op) : next ≤ inodes next ops := by
  induction ops generalizing next with
  | nil => exact Nat.le_refl _
  | cons op rest induction =>
    cases op with
    | ialloc type => exact (Nat.le_succ next).trans (induction (next + 1))
    | iappend inum p => exact induction next

theorem appended_outside (proper : Proper next ops) (outside : i = 0 ∨ inodes next ops ≤ i) :
    appended ops i = [] := by
  induction ops generalizing next with
  | nil => rfl
  | cons op rest induction =>
    cases op with
    | ialloc type => exact induction proper.2.2 outside
    | iappend inum p =>
      rw [appended_cons, induction proper.2 outside, List.append_nil]
      have bound := le_inodes next rest
      change i = 0 ∨ inodes next rest ≤ i at outside
      have other : inum ≠ i := by
        have := proper.1
        omega
      simp only [appended, List.flatMap_cons, List.flatMap_nil, if_neg other, List.append_nil]

theorem appended_ialloc (type : BitVec 16) (rest : List Op) :
    appended (.ialloc type :: rest) = appended rest := by
  funext i
  rw [appended_cons]
  rfl

theorem appended_iappend (inum : Nat) (p : List UInt8) (rest : List Op) (file : Nat → List UInt8)
    (i : Nat) :
    update file inum (file inum ++ p) i ++ appended rest i =
      file i ++ appended (.iappend inum p :: rest) i := by
  rw [appended_cons]
  simp only [appended, List.flatMap_cons, List.flatMap_nil, List.append_nil]
  by_cases same : i = inum
  · rw [same, update_self, if_pos rfl, List.append_assoc]
  · rw [update_of_ne same, if_neg fun equal => same equal.symm, List.nil_append]

end Op

theorem sum_blocksFor_le {first last : Nat → List UInt8} (bound : count ≤ total)
    (grows : ∀ i, (first i).length ≤ (last i).length) :
    ∑ i ∈ Finset.range count, blocksFor (first i).length ≤ ∑ i ∈ Finset.range total,
      blocksFor (last i).length :=
  (Finset.sum_le_sum fun i _ => blocksFor_mono (grows i)).trans
    (Finset.sum_le_sum_of_subset (Finset.range_mono bound))

def Within (inodes : Nat) (file : Nat → List UInt8) : Prop :=
  (∀ i, (file i).length ≤ maxfile * bsize) ∧
    nmeta + ∑ i ∈ Finset.range inodes, blocksFor (file i).length ≤ fssize

theorem Sound.fits {state : State} (sound : Sound state file) (inode : i < state.freeinode)
    (more : state.freeinode ≤ inodes)
    (grows : ∀ j, (update file i (file i ++ p) j).length ≤ (last j).length)
    (within : Within inodes last) : State.Fits state.freeblock (file i).length p.length := by
  constructor
  · have bound := (grows i).trans (within.1 i)
    rw [update_self, List.length_append] at bound
    exact bound
  · have sum := Tally.sum_update (Finset.range state.freeinode)
      (fun bytes : List UInt8 => blocksFor bytes.length) file
      (Finset.mem_range.mpr inode) (file i ++ p)
    have most := sum_blocksFor_le more grows
    have count := sound.count
    have total := within.2
    rw [List.length_append] at sum
    omega

theorem Sound.runAll (sound : Sound state file) (proper : Op.Proper state.freeinode ops)
    (positive : 0 < state.freeinode) (fresh : ∀ i, state.freeinode ≤ i → file i = []) :
    (Op.runAll state ops = none ∧ ¬Within (Op.inodes state.freeinode ops) fun i => file i ++
        Op.appended ops i) ∨ ∃ state', Op.runAll state ops = some state' ∧
      Sound state' (fun i => file i ++ Op.appended ops i) ∧ state'.freeinode =
      Op.inodes state.freeinode ops := by
  induction ops generalizing state file with
  | nil =>
    have same : (fun i => file i ++ Op.appended [] i) = file :=
      funext fun i => List.append_nil (file i)
    rw [same]
    exact .inr ⟨state, rfl, sound, rfl⟩
  | cons op rest induction =>
    cases op with
    | ialloc type =>
      obtain ⟨typed, area, later⟩ := proper
      obtain ⟨middle, done, next, freeinode⟩ :=
        sound.ialloc typed area positive (fresh _ (Nat.le_refl _))
      have inodes : Op.inodes state.freeinode (.ialloc type :: rest) =
          Op.inodes middle.freeinode rest := by
        rw [freeinode]
        rfl
      have run : Op.runAll state (.ialloc type :: rest) = Op.runAll middle rest := by
        simp only [Op.runAll, Op.run, done, Option.map_some, Option.bind_some]
      rw [Op.appended_ialloc, inodes, run]
      exact induction next (freeinode ▸ later) (by omega)
        fun i beyond => fresh i (by omega)
    | iappend inum p =>
      obtain ⟨⟨start, known⟩, later⟩ := proper
      have files : (fun i => file i ++ Op.appended (.iappend inum p :: rest) i) = fun i =>
            update file inum (file inum ++ p) i ++ Op.appended rest i :=
        (funext (Op.appended_iappend inum p rest file)).symm
      rw [files]
      rcases sound.iappend start known p with
        ⟨none, unfit⟩ | ⟨middle, done, next, freeinode⟩
      · refine .inl ⟨?_, fun within => unfit ?_⟩
        · simp only [Op.runAll, Op.run, none, Option.bind_none]
        · exact sound.fits known (Op.le_inodes _ _)
            (fun j => (List.sublist_append_left ..).length_le) within
      · have inodes : Op.inodes state.freeinode (.iappend inum p :: rest) =
              Op.inodes middle.freeinode rest := by
          rw [freeinode]
          rfl
        have run : Op.runAll state (.iappend inum p :: rest) = Op.runAll middle rest := by
          simp only [Op.runAll, Op.run, done, Option.bind_some]
        rw [inodes, run]
        refine induction next (freeinode ▸ later) (by omega) ?_
        intro i beyond
        rw [update_of_ne (by omega)]
        exact fresh i (by omega)

theorem runAll_blank (proper : Op.Proper 1 ops)
    (within : Within (Op.inodes 1 ops) (Op.appended ops)) :
    ∃ state, Op.runAll blank ops = some state ∧ Sound state (Op.appended ops) ∧ state.freeinode =
      Op.inodes 1 ops := by
  rw [← blank_freeinode] at proper within ⊢
  have start : 0 < blank.freeinode := by
    rw [blank_freeinode]
    decide
  exact (blank_sound.runAll proper start fun _ _ => rfl).resolve_left fun failed => failed.2 within

end Mkfs

end Xv6Lottery.Disk
