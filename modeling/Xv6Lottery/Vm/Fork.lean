import Xv6Lottery.Vm.Duplicate
import Xv6Lottery.Vm.Process

/-! fork() -/

namespace Xv6Lottery.Vm

open Function

/-! allocproc() and freeproc() -/

structure Blank (task : Task) : Prop where
  sz : task.sz = 0
  pagetable : task.pagetable = none
  trapframe : task.trapframe = none
  ofile : task.ofile = fun _ => none

def Idle (k : System) : Prop :=
  ∀ slot, (k.procs slot).state = .unused → Blank (k.procs slot)

/-- A call has failed. The slots in use and the set of free pages are as they
were. -/
structure Unspoilt (k after : System) : Prop where
  released : Released (· ∈ k.ram.free) k.ram after.ram
  procs : ∀ slot, (k.procs slot).state ≠ .unused → after.procs slot = k.procs slot
  unused : ∀ slot, (k.procs slot).state = .unused → (after.procs slot).state = .unused
  idle : Idle k → Idle after
  fileRef : after.fileRef = k.fileRef
  inodeRef : after.inodeRef = k.inodeRef

/-- A slot has a trapframe and an empty address space, from pages that were
free. -/
structure Ready (text : Page) (k : System) (np : Slot) (root frame : Page)
    (after : System) : Prop where
  unused : (k.procs np).state = .unused
  task : after.procs np = { k.procs np with
    pid := k.nextpid, state := .used, tickets := 10
    trapframe := some frame, pagetable := some root }
  others : ∀ slot, slot ≠ np → after.procs slot = k.procs slot
  space : Space after.ram root 0
  tops : Tops after.ram root text frame
  out : ¬Pool after.ram root 0 frame
  inRam : InRam after.ram frame
  pool : ∀ {page}, page = frame ∨ Pool after.ram root 0 page ↔ page ∈ k.ram.free
  outside : ∀ {a}, (∀ {page}, pgRoundDown a = page.addr →
    page ∉ k.ram.free) → after.ram.word a = k.ram.word a
  kernelEnd : after.ram.kernelEnd = k.ram.kernelEnd
  fileRef : after.fileRef = k.fileRef
  inodeRef : after.inodeRef = k.inodeRef

section

variable {k after : System} {p np : Slot} {text root frame page : Page}
  {ram between : Ram} {count : Nat}

theorem Task.clear_blank (task : Task) (closed : task.ofile = fun _ => none) :
    Blank task.clear := ⟨rfl, rfl, rfl, closed⟩

theorem Unspoilt.clear (task : Task) (unused : (k.procs np).state = .unused)
    (ofile : task.ofile = (k.procs np).ofile)
    (released : Released (· ∈ k.ram.free) k.ram after.ram)
    (procs : after.procs = update k.procs np task.clear) (fileRef : after.fileRef = k.fileRef)
    (inodeRef : after.inodeRef = k.inodeRef) : Unspoilt k after where
  released := released
  procs := fun slot used => by
    have apart : slot ≠ np := by
      rintro rfl
      exact used unused
    rw [procs, update_of_ne apart]
  unused := fun slot isUnused => by
    rw [procs]
    by_cases same : slot = np
    · rw [same, update_self]
      rfl
    · rw [update_of_ne same]
      exact isUnused
  idle := fun idle slot isUnused => by
    rw [procs] at isUnused ⊢
    by_cases same : slot = np
    · rw [same, update_self]
      exact task.clear_blank (ofile.trans (idle np unused).ofile)
    · rw [update_of_ne same] at isUnused ⊢
      exact idle slot isUnused
  fileRef := fileRef
  inodeRef := inodeRef

theorem Allocator.kalloc (allocator : Allocator ram) (first : ram.free = page :: between.free)
    (kernelEnd : between.kernelEnd = ram.kernelEnd) :
    Allocator between ∧ page ∉ between.free ∧ InRam between page ∧ ∀ {other}, other = page ∨
      other ∈ between.free ↔ other ∈ ram.free := by
  have members : ∀ {other}, other = page ∨ other ∈ between.free ↔ other ∈ ram.free := by
    intro other
    rw [first, List.mem_cons]
  have nodup : (page :: between.free).Nodup := first ▸ allocator.nodup
  have inRam : ∀ {other}, other = page ∨ other ∈ between.free → InRam between other := fun known =>
    (inRam_congr kernelEnd).mpr (allocator.inRam (members.mp known))
  refine ⟨⟨(List.nodup_cons.mp nodup).2, fun member => inRam (.inr member),
    ?_⟩, (List.nodup_cons.mp nodup).1, inRam (.inl rfl), members⟩
  rw [kernelEnd]
  exact allocator.kernelEnd

theorem Allocator.kfree (allocator : Allocator ram) (used : page ∉ ram.free)
    (inRam : InRam ram page) :
    ∃ after, ram.kfree page = .ok after ∧ Released (fun other => other = page ∨
        other ∈ ram.free) ram after := by
  refine ⟨_, kfree_eq inRam, ⟨List.nodup_cons.mpr ⟨used, allocator.nodup⟩,
    fun {other} member => ?_, allocator.kernelEnd⟩, List.mem_cons,
    fun outside => if_neg fun same => outside same (.inl rfl), rfl⟩
  rcases List.mem_cons.mp member with rfl | there
  · exact inRam
  · exact allocator.inRam there

theorem Tops.congr {after : Ram} (tops : Tops ram root text frame)
    (same : ∀ n, trapframePage ≤ n → view after root n = view ram root n) :
    Tops after root text frame where
  trampoline := (same _ trapframe_lt.le).trans tops.trampoline
  trapframe := (same _ le_rfl).trans tops.trapframe

theorem freeproc_spec (trapframe : (k.procs p).trapframe = some frame)
    (pagetable : (k.procs p).pagetable = some root) (space : Space k.ram root count)
    (sized : Sized (k.procs p).sz count) (tops : Tops k.ram root text frame)
    (out : ¬Pool k.ram root count frame) (inRam : InRam k.ram frame) :
    ∃ ram, freeproc p k = .ok ((k.setRam ram).setProc p (k.procs p).clear) ∧
      Released (fun page => page = frame ∨ Pool k.ram root count page) k.ram ram := by
  obtain ⟨between, freed, gave⟩ := space.kfree out inRam
  obtain ⟨after, done, released⟩ := procFreepagetable_spec gave.space sized
    (tops.congr fun n _ => by rw [gave.view])
  refine ⟨after, ?_, released.extend gave.pool (fun outside => ?_) gave.kernelEnd⟩
  · unfold freeproc
    rw [trapframe, pagetable]
    dsimp only [freeIfSet, bind, Except.bind]
    rw [freed]
    dsimp only
    rw [done]
    rfl
  · exact gave.words fun same => outside same (.inl rfl)

theorem allocproc_spec (text : Page) (allocator : Allocator k.ram) (idle : Idle k) :
    ∃ result after, allocproc text k = .ok (result, after) ∧ match result with
      | none => Unspoilt k after
      | some np => ∃ root frame, Ready text k np root frame after := by
  unfold allocproc
  cases found : slots.find? fun slot => (k.procs slot).state = .unused with
  | none =>
    exact ⟨none, k, rfl, ⟨allocator, Iff.rfl, fun _ => rfl, rfl⟩,
      fun _ _ => rfl, fun _ unused => unused, id, rfl, rfl⟩
  | some np =>
    have holds := List.find?_some found
    have unused : (k.procs np).state = .unused := of_decide_eq_true holds
    have blank := idle np unused
    dsimp only
    rcases kalloc_spec k.ram with ⟨denied, failed⟩ | ⟨frame, free, denied, first, took⟩
    · rw [failed]
      dsimp only
      generalize tasks : ({ k.procs np with
        pid := k.nextpid, state := .used, tickets := 10,
        trapframe := none } : Task) = task
      have pagetable : task.pagetable = none := by
        rw [← tasks]
        exact blank.pagetable
      have trapframe : task.trapframe = none := by rw [← tasks]
      have ofile : task.ofile = (k.procs np).ofile := by rw [← tasks]
      refine ⟨none, (({ k with nextpid := k.nextpid + 1 } : System).setRam
        { k.ram with denied := denied }).setProc np task.clear, ?_, ?_⟩
      · simp only [freeproc, System.setProc, update_self,
          trapframe, pagetable, freeIfSet, bind, Except.bind, System.setRam,
          pure, Except.pure, update_idem]
      · exact .clear task unused ofile (.deny allocator denied) rfl rfl rfl
    · rw [took]
      dsimp only
      generalize taken : Ram.memset { k.ram with
        denied := denied, free := free } frame 0x0505050505050505 = ram
      have frees : ram.free = free := by rw [← taken]; rfl
      have kernelEnd : ram.kernelEnd = k.ram.kernelEnd := by
        rw [← taken]; rfl
      have words : ∀ {a}, (∀ {page}, pgRoundDown a = page.addr →
          page ∉ k.ram.free) → ram.word a = k.ram.word a := by
        intro a outside
        rw [← taken]
        refine if_neg fun same => outside same ?_
        rw [first]
        exact List.mem_cons_self
      obtain ⟨allocated, used, inRam, members⟩ := @Allocator.kalloc frame
        k.ram ram allocator (first.trans (congrArg _ frees.symm)) kernelEnd
      obtain ⟨result, made, done, rest⟩ := procPagetable_spec allocated text frame
      rw [done]
      dsimp only [bind, Except.bind]
      cases result with
      | none =>
        rw [Option.isNone_none, if_pos rfl]
        obtain ⟨after, freed, released⟩ := rest.allocator.kfree
          (fun member => used (rest.free.mp member)) ((inRam_congr rest.kernelEnd).mpr inRam)
        have whole : Released (· ∈ k.ram.free) k.ram after := by
          refine released.extend (fun {page} => ?_) (fun outside => ?_)
            (rest.kernelEnd.trans kernelEnd)
          · rw [rest.free]
            exact members
          · rw [rest.outside fun same member =>
              outside same (members.mp (.inr member))]
            exact words outside
        generalize tasks : ({ k.procs np with
          pid := k.nextpid, state := .used, tickets := 10,
          trapframe := some frame, pagetable := none } : Task) = task
        have pagetable : task.pagetable = none := by rw [← tasks]
        have trapframe : task.trapframe = some frame := by rw [← tasks]
        have ofile : task.ofile = (k.procs np).ofile := by rw [← tasks]
        refine ⟨none, (({ k with nextpid := k.nextpid + 1 } :
          System).setRam after).setProc np task.clear, ?_, ?_⟩
        · simp only [freeproc, System.setProc, update_self,
            trapframe, pagetable, freeIfSet, bind, Except.bind,
            System.setRam, pure, Except.pure, update_idem, freed]
        · exact .clear task unused ofile whole rfl rfl rfl
      | some root =>
        rw [Option.isNone_some, if_neg (by decide)]
        obtain ⟨created, tops⟩ := rest
        refine ⟨some np, _, rfl, root, frame, {
          unused := unused
          task := update_self ..
          others := fun slot apart => update_of_ne apart ..
          space := created.space
          tops := tops
          out := fun pool => used (created.pool.mp pool)
          inRam := (inRam_congr created.kernelEnd).mpr inRam
          pool := fun {page} => ?_
          outside := fun outside => ?_
          kernelEnd := created.kernelEnd.trans kernelEnd
          fileRef := rfl
          inodeRef := rfl }⟩
        · change page = frame ∨ Pool made root 0 page ↔ _
          rw [created.pool]
          exact members
        · exact (created.outside fun same member =>
            outside same (members.mp (.inr member))).trans (words outside)

/-! The open files of the child. -/

def references (ofile : Fin nofile → Option (Fin nfile))
    (fds : List (Fin nofile)) (f : Fin nfile) : Nat :=
  fds.countP fun i => ofile i = some f

theorem references_cons :
    references ofile (i :: fds) f = references ofile fds f + if ofile i = some f then 1 else 0 := by
  rw [references, List.countP_cons]
  simp only [decide_eq_true_eq]
  rfl

def inherit (ofile before : Fin nofile → Option (Fin nfile))
    (fds : List (Fin nofile)) (i : Fin nofile) : Option (Fin nfile) :=
  if i ∈ fds ∧ ofile i ≠ none then ofile i else before i

structure Inherits (p np : Slot) (fds : List (Fin nofile)) (k after : System) : Prop where
  ram : after.ram = k.ram
  others : ∀ slot, slot ≠ np → after.procs slot = k.procs slot
  child : after.procs np = { k.procs np with
    ofile := inherit (k.procs p).ofile (k.procs np).ofile fds }
  fileRef : ∀ f, after.fileRef f = k.fileRef f + references (k.procs p).ofile fds f
  inodeRef : after.inodeRef = k.inodeRef
  nextpid : after.nextpid = k.nextpid

theorem inherit_cons_none (closed : ofile i = none) :
    inherit ofile before (i :: fds) = inherit ofile before fds := by
  funext j
  unfold inherit
  by_cases same : j = i
  · rw [same, if_neg fun both => both.2 closed, if_neg fun both => both.2 closed]
  · simp only [List.mem_cons, same, false_or]

theorem inherit_cons_some (isOpen : ofile i = some f) :
    inherit ofile before (i :: fds) = inherit ofile (update before i (some f)) fds := by
  funext j
  unfold inherit
  by_cases same : j = i
  · rw [same, if_pos ⟨List.mem_cons_self, by rw [isOpen]; nofun⟩,
      update_self, isOpen, ite_self]
  · simp only [List.mem_cons, same, false_or]
    rw [update_of_ne same]

theorem forkFiles_spec (apart : p ≠ np) (fds : List (Fin nofile))
    (files : ∀ i f, (k.procs p).ofile i = some f → 1 ≤ k.fileRef f) :
    ∃ after, fds.foldlM (forkFile p np) k = .ok after ∧ Inherits p np fds k after := by
  -- by induction on the descriptors
  induction fds generalizing k with
  | nil =>
    refine ⟨k, rfl, rfl, fun _ _ => rfl, ?_, fun f => (add_zero _).symm, rfl, rfl⟩
    have same : inherit (k.procs p).ofile (k.procs np).ofile [] = (k.procs np).ofile :=
      funext fun i => if_neg fun both => List.not_mem_nil both.1
    rw [same]
  | cons i fds induction =>
    rw [List.foldlM_cons]
    cases opened : (k.procs p).ofile i with
    | none =>
      have entry : forkFile p np k i = .ok k := by
        unfold forkFile
        rw [opened]
      obtain ⟨after, done, inherits⟩ := induction files
      refine ⟨after, ?_, inherits.ram, inherits.others, ?_, fun f => ?_,
        inherits.inodeRef, inherits.nextpid⟩
      · rw [entry]
        exact done
      · rw [inherit_cons_none opened]
        exact inherits.child
      · rw [references_cons, opened, if_neg nofun]
        exact inherits.fileRef f
    | some f =>
      have counted := files i f opened
      generalize next : System.setProc { k with
          fileRef := update k.fileRef f (k.fileRef f + 1) } np
        { k.procs np with
          ofile := update (k.procs np).ofile i (some f) } = dup
      have entry : forkFile p np k i = .ok dup := by
        unfold forkFile
        rw [opened]
        dsimp only [filedup, bind, Except.bind]
        rw [if_neg (not_lt.mpr counted), ← next]
        rfl
      have parent : dup.procs p = k.procs p := by
        rw [← next]
        exact update_of_ne apart ..
      have child : dup.procs np = { k.procs np with
          ofile := update (k.procs np).ofile i (some f) } := by
        rw [← next]
        exact update_self ..
      have refs : dup.fileRef = update k.fileRef f (k.fileRef f + 1) := by
        rw [← next]
        rfl
      obtain ⟨after, done, inherits⟩ := @induction dup fun j g isOpen => by
        rw [parent] at isOpen
        have before := files j g isOpen
        rw [refs]
        by_cases same : g = f
        · rw [same, update_self]
          omega
        · rw [update_of_ne same]
          exact before
      refine ⟨after, ?_, ?_, fun slot differs => ?_, ?_, fun g => ?_, ?_, ?_⟩
      · rw [entry]
        exact done
      · rw [inherits.ram, ← next]
        rfl
      · rw [inherits.others slot differs, ← next]
        exact update_of_ne differs ..
      · rw [inherits.child, parent, child, inherit_cons_some opened]
      · rw [inherits.fileRef, parent, refs, references_cons, opened]
        by_cases same : g = f
        · rw [same, update_self, if_pos rfl]
          push_cast
          ring
        · rw [update_of_ne same, if_neg fun equal => same (Option.some.inj equal).symm]
          rfl
      · rw [inherits.inodeRef, ← next]
        rfl
      · rw [inherits.nextpid, ← next]
        rfl

theorem inherit_all : inherit ofile (fun _ => none) (List.finRange nofile) = ofile := by
  funext i
  unfold inherit
  by_cases closed : ofile i = none
  · rw [if_neg fun both => both.2 closed, closed]
  · rw [if_pos ⟨List.mem_finRange i, closed⟩]

/-! The registers of the child. -/

/-- A trapframe is the copy of another one, but for a0. -/
structure TrapframeCopied (ram : Ram) (source : Page) (after : Ram) (target : Page) : Prop where
  registers : ∀ off < trapframeSize, off / 8 ≠ 14 →
    after.byte (target.byte off) = ram.byte (source.byte off)
  a0 : after.word (a0 target) = 0

section Trapframe

variable {source target : Page}

theorem copyTrapframe_free : (copyTrapframe source target ram).free = ram.free := by
  unfold copyTrapframe
  generalize trapframeSize = size
  exact memmove_free ..

theorem copyTrapframe_kernelEnd : (copyTrapframe source target ram).kernelEnd = ram.kernelEnd := by
  unfold copyTrapframe
  generalize trapframeSize = size
  exact memmove_kernelEnd ..

theorem copyTrapframe_words (apart : pgRoundDown a ≠ target.addr) :
    (copyTrapframe source target ram).word a = ram.word a := by
  have other : a ≠ a0 target := by
    rintro rfl
    exact apart (target.entry_page 14)
  unfold copyTrapframe
  rw [← target.byte_zero]
  exact (update_of_ne other ..).trans (memmove_word _ _ _ (by decide) apart)

theorem copyTrapframe_spec :
    TrapframeCopied ram source (copyTrapframe source target ram) target where
  registers := fun off small other => by
    have size : trapframeSize = 288 := rfl
    have inside : off < 4096 := by omega
    have apart : wordOf (target.byte off) ≠ a0 target := by
      intro same
      have aligned : target.addr.toNat % 4096 = 0 := target.aligned
      have values := congrArg UInt64.toNat same
      rw [wordOf_toNat, target.byte_toNat inside, a0, target.entry_toNat] at values
      change _ = target.addr.toNat + 8 * 14 at values
      omega
    have stored : (copyTrapframe source target ram).byte (target.byte off) =
        (ram.memmove target.addr (fun j => ram.byte (source.addr + UInt64.ofNat j))
          trapframeSize).byte (target.byte off) := by
      unfold copyTrapframe
      generalize trapframeSize = size
      simp only [Ram.byte, Ram.store, update_of_ne apart]
    have written := memmove_written ram target
      (fun j => ram.byte (source.addr + UInt64.ofNat j)) (n := trapframeSize)
      (by decide : 0 + trapframeSize ≤ 4096) small
    rw [Nat.zero_add, target.byte_zero] at written
    rw [stored, written]
    rfl
  a0 := update_self ..

end Trapframe

theorem forkRest_spec (apart : p ≠ np)
    (trapframe : (k.procs p).trapframe = some frame) (target : (k.procs np).trapframe = some copy)
    (files : ∀ i f, (k.procs p).ofile i = some f → 1 ≤ k.fileRef f)
    {cwd : Fin ninode} (directory : (k.procs p).cwd = some cwd)
    (closed : (k.procs np).ofile = fun _ => none) :
    ∃ after, forkRest p np k = .ok ((k.procs np).pid.toInt, after) ∧
      after.ram = copyTrapframe frame copy k.ram ∧
      (∀ slot, slot ≠ np → after.procs slot = k.procs slot) ∧
      after.procs np = { k.procs np with
        ofile := (k.procs p).ofile
        cwd := some cwd
        name := safestrcpy (k.procs np).name (k.procs p).name 16
        parent := some p
        state := .runnable } ∧
      (∀ f, after.fileRef f = k.fileRef f + references (k.procs p).ofile (List.finRange nofile) f) ∧
      after.inodeRef = update k.inodeRef cwd (k.inodeRef cwd + 1) := by
  obtain ⟨between, done, inherits⟩ := @forkFiles_spec
    (k.setRam (copyTrapframe frame copy k.ram)) p np apart (List.finRange nofile) files
  have parent : between.procs p = k.procs p := inherits.others p apart
  have child : between.procs np = { k.procs np with
      ofile := (k.procs p).ofile } := by
    have all : between.procs np = { k.procs np with
      ofile := inherit (k.procs p).ofile (k.procs np).ofile
        (List.finRange nofile) } := inherits.child
    rw [all, closed, inherit_all]
  have refs : between.inodeRef = k.inodeRef := inherits.inodeRef
  generalize finished : (idup cwd between).setProc np
    { between.procs np with
      cwd := some cwd
      name := safestrcpy (between.procs np).name (between.procs p).name 16
      parent := some p
      state := .runnable } = after
  refine ⟨after, ?_, ?_, fun slot differs => ?_, ?_, fun f => ?_, ?_⟩
  · unfold forkRest
    rw [trapframe, target]
    dsimp only [pointer, bind, Except.bind]
    rw [done]
    dsimp only
    rw [parent, directory]
    dsimp only
    have pid : (after.procs np).pid = (k.procs np).pid := by
      simp only [← finished, System.setProc, update_self, child]
    rw [← pid, ← finished]
    rfl
  · rw [← finished]
    exact inherits.ram
  · rw [← finished]
    exact (update_of_ne differs ..).trans (inherits.others slot differs)
  · rw [← finished, parent, child]
    exact update_self ..
  · rw [← finished]
    exact inherits.fileRef f
  · rw [← finished]
    change update between.inodeRef cwd (between.inodeRef cwd + 1) = _
    rw [refs]

end

/-! fork() -/

/-- A process that can call fork(). -/
structure Forks (k : System) (p : Slot) (root frame : Page) : Prop where
  state : (k.procs p).state ≠ .unused
  pagetable : (k.procs p).pagetable = some root
  trapframe : (k.procs p).trapframe = some frame
  space : ProcSpace k.ram ⟨root, (k.procs p).sz⟩
  unlisted : frame ∉ k.ram.free
  files : ∀ i f, (k.procs p).ofile i = some f → 1 ≤ k.fileRef f
  cwd : (k.procs p).cwd ≠ none

/-- The same pages with the same flags and bytes, and other frames. -/
structure PrivateCopy (ram : Ram) (old : Page) (after : Ram) (new : Page) (count : Nat) : Prop where
  flags : ∀ n < trapframePage, (view after new n).map Leaf.flags = (view ram old n).map Leaf.flags
  bytes : ∀ x < 4096 * count, userByte after new x = userByte ram old x
  apart : ∀ {n m : Vpn} {leaf other}, n.val < count → m.val < count →
    view after new n = some leaf → view ram old m = some other → leaf.frame ≠ other.frame

/-- The memory of the child, from pages that were free. -/
structure ChildMemory (text : Page) (k : System) (p : Slot)
    (root frame : Page) (after : Ram) (new copy : Page) : Prop where
  space : ProcSpace after ⟨new, (k.procs p).sz⟩
  tops : Tops after new text copy
  copied : PrivateCopy k.ram root after new (pages (k.procs p).sz)
  registers : TrapframeCopied k.ram frame after copy
  out : ¬Pool after new (pages (k.procs p).sz) copy
  pool : ∀ {page}, page = copy ∨ Pool after new (pages (k.procs p).sz) page ↔ page ∈ k.ram.free

structure Child (text : Page) (k : System) (p np : Slot) (root frame : Page)
    (after : System) : Prop where
  unused : (k.procs np).state = .unused
  others : ∀ slot, slot ≠ np → after.procs slot = k.procs slot
  pid : (after.procs np).pid = k.nextpid
  state : (after.procs np).state = .runnable
  parent : (after.procs np).parent = some p
  sz : (after.procs np).sz = (k.procs p).sz
  memory : ∃ new copy, (after.procs np).pagetable = some new ∧
    (after.procs np).trapframe = some copy ∧ ChildMemory text k p root frame after.ram new copy
  ofile : (after.procs np).ofile = (k.procs p).ofile
  cwd : (after.procs np).cwd = (k.procs p).cwd
  fileRef : ∀ f, after.fileRef f =
    k.fileRef f + references (k.procs p).ofile (List.finRange nofile) f
  inodeRef : ∀ ip, after.inodeRef ip = k.inodeRef ip + if (k.procs p).cwd = some ip then 1 else 0

structure ParentKept (k : System) (p : Slot) (root frame : Page) (after : System) : Prop where
  task : after.procs p = k.procs p
  mappings : view after.ram root = view k.ram root
  bytes : ∀ x < trapframe.toNat, userByte after.ram root x = userByte k.ram root x
  registers : ∀ off < 4096, after.ram.byte (frame.byte off) = k.ram.byte (frame.byte off)

section

variable {k after : System} {p np : Slot} {text root frame page new copy : Page}
  {ram between final : Ram} {count : Nat} {image : Image}

theorem ProcSpace.kept (isSpace : ProcSpace ram image) (outside : ∀ {a}, (∀ {page}, pgRoundDown a =
      page.addr → page ∉ ram.free) → between.word a = ram.word a) :
    view between image.pagetable = view ram image.pagetable ∧ ∀ x < Vm.trapframe.toNat,
      userByte between image.pagetable x = userByte ram image.pagetable x := by
  have nodes : ∀ {page}, Node ram image.pagetable page → page ∉ ram.free :=
    fun node member => isSpace.space.fresh.apart member node
  have views := view_kept (· ∈ ram.free) outside nodes
  refine ⟨views, fun x below => ?_⟩
  have value : Vm.trapframe.toNat = 4096 * trapframePage.val := by decide
  have low : x / pgsize < trapframePage.val := by
    change x / 4096 < _
    omega
  have inside : x / pgsize < maxva / pgsize := low.trans trapframePage.isLt
  have same := congrFun views ⟨x / pgsize, inside⟩
  cases found : view ram image.pagetable ⟨x / pgsize, inside⟩ with
  | none => rw [userByte_none rfl found, userByte_none rfl (same.trans found)]
  | some leaf =>
    have less := (isSpace.space.mapped_iff
      (m := ⟨x / pgsize, inside⟩) low).mp (by rw [found]; nofun)
    have used := (isSpace.space.apart ⟨_, less, leaf, found, rfl⟩).2
    have small : x % pgsize < 4096 := Nat.mod_lt _ (by decide)
    rw [userByte_some rfl found, userByte_some rfl (same.trans found),
      byte_kept (· ∈ ram.free) outside used small]

theorem Forks.kept (forks : Forks k p root frame) (task : after.procs p = k.procs p)
    (outside : ∀ {a}, (∀ {page}, pgRoundDown a = page.addr → page ∉ k.ram.free) → after.ram.word a =
      k.ram.word a) : ParentKept k p root frame after :=
  have ⟨views, bytes⟩ := forks.space.kept outside
  ⟨task, views, bytes, fun _ small =>
    byte_kept (· ∈ k.ram.free) outside forks.unlisted small⟩

section Child

variable {made : System} (forks : Forks k p root frame) (ready : Ready text k np new copy made)

include forks

theorem Forks.used (used : Used k.ram root (pages (k.procs p).sz) page) : page ∉ k.ram.free :=
  used.elim (fun node member => forks.space.space.fresh.apart member node)
    fun isFrame => (forks.space.space.apart isFrame).2

theorem Forks.node (node : Node k.ram root page) :
    page ∉ k.ram.free := forks.used (.inl node)

include ready

theorem Ready.source :
    Source made.ram root (pages (k.procs p).sz) ∧ ∀ {page},
      Used made.ram root (pages (k.procs p).sz) page → ¬Pool made.ram new 0 page := by
  refine ⟨forks.space.space.source.kept (· ∈ k.ram.free) ready.outside
    forks.node, fun used pool => ?_⟩
  have before := (used_kept (· ∈ k.ram.free) ready.outside forks.node).mp used
  exact forks.used before (ready.pool.mp (.inr pool))

variable (changes : Changes new 0 made.ram 0 between (pages (k.procs p).sz))

include changes

omit forks in
theorem Ready.changed :
    ¬Pool between new (pages (k.procs p).sz) copy ∧ ∀ {page}, page = copy ∨
      Pool between new (pages (k.procs p).sz) page ↔ page ∈ k.ram.free := by
  refine ⟨fun pool => ready.out (changes.pool.mp pool), fun {page} => ?_⟩
  rw [changes.pool]
  exact ready.pool

omit forks in
theorem Ready.outside_copy (outside : ∀ {page}, pgRoundDown a = page.addr → page ∉ k.ram.free) :
    between.word a = k.ram.word a := by
  rw [changes.outside fun same pool => outside same (ready.pool.mp (.inr pool))]
  exact ready.outside outside

omit forks in
theorem Ready.outside_child {a : UInt64}
    (outside : ∀ {page}, pgRoundDown a = page.addr → page ∉ k.ram.free) :
    (copyTrapframe frame copy between).word a = k.ram.word a := by
  have ⟨_, pool⟩ := ready.changed changes
  rw [copyTrapframe_words fun same => outside same (pool.mp (.inl rfl))]
  exact ready.outside_copy changes outside

variable (copied : Copied made.ram root between new 0 (pages (k.procs p).sz))

include copied

theorem Ready.privateCopy : PrivateCopy k.ram root between new (pages (k.procs p).sz) where
  flags := fun n low => by
    by_cases less : n.val < pages (k.procs p).sz
    · obtain ⟨leaf, other, found, theirs, same, _⟩ :=
        copied n (Nat.zero_le _) less
      rw [view_kept (· ∈ k.ram.free) ready.outside forks.node] at found
      rw [found, theirs, Option.map_some, Option.map_some, same]
    · rw [changes.space.nothing n (Nat.not_lt.mp less) low,
        forks.space.space.nothing n (Nat.not_lt.mp less) low]
  bytes := fun x less => by
    have number : x / pgsize < pages (k.procs p).sz := by
      rw [pgsize]
      omega
    have inside : x / pgsize < maxva / pgsize :=
      (number.trans_le changes.space.bound).trans trapframePage.isLt
    have small : x % pgsize < 4096 := Nat.mod_lt _ (by decide)
    obtain ⟨leaf, other, found, theirs, _, bytes⟩ :=
      copied ⟨x / pgsize, inside⟩ (Nat.zero_le _) number
    rw [view_kept (· ∈ k.ram.free) ready.outside forks.node] at found
    have used := forks.used (.inr ⟨_, number, leaf, found, rfl⟩)
    rw [userByte_some rfl found, userByte_some rfl theirs,
      bytes _ small, byte_kept (· ∈ k.ram.free) ready.outside used small]
  apart := fun {n m leaf other} less otherLess found theirs same => by
    have free := ready.pool.mp (.inr (changes.pool.mp (.inr (.inr ⟨n, less, leaf, found, rfl⟩))))
    rw [same] at free
    exact forks.used (.inr ⟨m, otherLess, other, theirs, rfl⟩) free

theorem Ready.childMemory :
    ChildMemory text k p root frame (copyTrapframe frame copy between) new copy := by
  have ⟨out, pool⟩ := ready.changed changes
  have noNode : ¬Node between new copy := fun node => out (.inr (.inl node))
  have isCopy := ready.privateCopy forks changes copied
  have words : ∀ {a}, pgRoundDown a ≠ copy.addr →
      (copyTrapframe frame copy between).word a = between.word a :=
    copyTrapframe_words
  obtain ⟨space, views, same⟩ := changes.space.write words copyTrapframe_free
    copyTrapframe_kernelEnd noNode
  have tops : Tops (copyTrapframe frame copy between) new text copy :=
    ready.tops.congr fun n high => by
      rw [views]
      exact changes.above n high
  refine {
    space := ⟨space, forks.space.size, ⟨_, tops.trapframe, by dsimp only; decide⟩,
      ⟨_, tops.trampoline, by dsimp only; decide⟩⟩
    tops := tops
    copied := ⟨fun n low => ?_, fun x less => ?_, fun less otherLess found => ?_⟩
    registers := ⟨fun off small other => ?_, copyTrapframe_spec.a0⟩
    out := fun isPool => out (same.mp isPool)
    pool := fun {page} => ?_ }
  · rw [views]
    exact isCopy.flags n low
  · rw [← isCopy.bytes x less]
    have number : x / pgsize < pages (k.procs p).sz := by
      rw [pgsize]
      omega
    have inside : x / pgsize < maxva / pgsize :=
      (number.trans_le changes.space.bound).trans trapframePage.isLt
    obtain ⟨leaf, found, _⟩ := changes.space.user ⟨x / pgsize, inside⟩ number
    have differs : leaf.frame ≠ copy := by
      rintro rfl
      exact out (.inr (.inr ⟨_, number, leaf, found, rfl⟩))
    have words : ∀ {a}, pgRoundDown a = leaf.frame.addr →
        (copyTrapframe frame copy between).word a = between.word a := by
      intro a inPage
      refine copyTrapframe_words ?_
      rw [inPage]
      exact fun equal => differs (Page.eq_of_addr equal)
    have small : x % pgsize < 4096 := Nat.mod_lt _ (by decide)
    rw [userByte_some rfl found, userByte_some rfl (by rw [views]; exact found),
      byte_congr words small]
  · rw [views] at found
    exact isCopy.apart less otherLess found
  · have inside : off < 4096 := small.trans (by decide)
    rw [copyTrapframe_spec.registers off small other]
    exact byte_kept (· ∈ k.ram.free) (ready.outside_copy changes) forks.unlisted inside
  · rw [same]
    exact pool

end Child

theorem Ready.undo {made : System} (ready : Ready text k np new copy made) (idle : Idle k)
    (changes : Changes new 0 made.ram 0 between 0) :
    ∃ after, freeproc np (made.setRam between) = .ok after ∧ Unspoilt k after := by
  have blank := idle np ready.unused
  have task : (made.setRam between).procs np = _ := ready.task
  have size : ((made.setRam between).procs np).sz = 0 := by
    rw [task]
    exact blank.sz
  obtain ⟨ram, freed, released⟩ := @freeproc_spec (made.setRam between) np
    text new copy 0 (by rw [task]) (by rw [task]) changes.space
    (by rw [size]; exact .of_pages rfl)
    (ready.tops.congr fun n high => changes.above n high)
    (fun pool => ready.out (changes.pool.mp pool)) ((inRam_congr changes.kernelEnd).mpr ready.inRam)
  refine ⟨_, freed, .clear ((made.setRam between).procs np) ready.unused ?_ ?_
    ?_ ready.fileRef ready.inodeRef⟩
  · rw [task]
  · refine released.extend (fun {page} => ?_) (fun outside => ?_)
      (changes.kernelEnd.trans ready.kernelEnd)
    · exact (or_congr_right changes.pool).trans ready.pool
    · refine (changes.outside fun same pool => ?_).trans (ready.outside outside)
      exact outside same (ready.pool.mp (.inr pool))
  · funext slot
    by_cases same : slot = np
    · rw [same, update_self]
      exact update_self ..
    · rw [update_of_ne same]
      exact (update_of_ne same ..).trans (ready.others slot same)

end

/-! A process of one page. -/

def idleTask : Task where
  toProc := Proc.blank
  sz := 0
  pagetable := none
  trapframe := none
  ofile := fun _ => none
  cwd := none
  name := fun _ => 0

def oneProcess (ram : Ram) (image : Image) : System where
  ram := ram
  procs := update (fun _ => idleTask) initproc { idleTask with
    state := .running
    sz := image.sz
    pagetable := some image.pagetable
    trapframe := some bootText
    cwd := some 0 }
  nextpid := 2
  fileRef := fun _ => 0
  inodeRef := fun _ => 1

theorem oneProcess_idle (ram : Ram) (image : Image) : Idle (oneProcess ram image) := by
  intro slot unused
  unfold oneProcess at unused ⊢
  dsimp only at unused ⊢
  by_cases same : slot = initproc
  · rw [same, update_self] at unused
    cases unused
  · rw [update_of_ne same]
    exact ⟨rfl, rfl, rfl, rfl⟩

theorem oneProcess_forks (isSpace : ProcSpace ram image) (unlisted : bootText ∉ ram.free) :
    Forks (oneProcess ram image) initproc image.pagetable bootText where
  state := nofun
  pagetable := rfl
  trapframe := rfl
  space := isSpace
  unlisted := unlisted
  files := nofun
  cwd := nofun

end Xv6Lottery.Vm
