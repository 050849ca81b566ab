import Xv6Lottery.Disk.Discipline

/-! Every system call keeps the cache coherent, but for blocks that a failed
either_copyin() has changed. -/

namespace Xv6Lottery.Disk

open Concurrent Transition Function

variable {Agent : Type} [Fintype Agent]

theorem Plain.sound {value : Type} {operation : Op Agent value}
    (plain : Plain logged value operation)
    (inside : logged = true → ∃ depth, point = .op (depth + 1)) {answer : value}
    (sound : LogSound kernel knowledge) (mine : knowledge self = point)
    (done : sem sb value self operation kernel = .done answer next) : LogSound next knowledge := by
  cases operation with
  | block site b use =>
    have same := plain (kernel.view b)
    simp only [sem] at done
    generalize use (kernel.view b) = used at same done
    obtain ⟨found, data, log⟩ := used
    cases log with
    | true => exact (sound.logWrite done).2
    | false =>
      cases done
      have still : data = kernel.view b := same rfl
      subst still
      exact sound.read b
  | copyin b offset src start count =>
    obtain ⟨depth, inOp⟩ := inside plain
    exact sound.copyin (sound.outstanding_pos (mine.trans inOp)) done
  | mem use =>
    simp only [sem] at done
    generalize use self kernel.mem = effect at done
    cases effect with
    | wait => cases done
    | stop reason => cases done
    | done found mem =>
      cases done
      exact sound.keep rfl rfl rfl rfl rfl fun _ clean =>
        clean.congr rfl rfl
  | recycle b =>
    cases done
    exact sound.recycle b
  | panic reason => cases done
  | beginOp => exact plain.elim
  | endOp => exact plain.elim
  | logLength => exact plain.elim
  | writeLog tail => exact plain.elim
  | writeHead => exact plain.elim
  | install tail => exact plain.elim
  | clearLog => exact plain.elim
  | finishOp => exact plain.elim

variable [DecidableEq Agent]

/-- The program moves from one point of a transaction to another and keeps
the log sound. -/
def Keeps (sb : Superblock) (self : Agent) {value : Type}
    (prog : FsProg Agent value) (before after : LogPoint) : Prop :=
  Safe (sem sb) LogSound (fun _ => True) (fun _ => True) (fun _ _ => True)
    self prog (fun _ learnt => learnt = after) before

namespace Keeps

variable {sb : Superblock} {self : Agent} {value result : Type} {before middle after : LogPoint}

theorem pure (outcome : value) : Keeps sb self (Pure.pure outcome) before before := rfl

theorem fail (reason : Failure) :
    Keeps sb self (Disk.fail reason : FsProg Agent value) before after :=
  ⟨trivial, fun _ _ _ _ _ => trivial⟩

theorem bind (first : Keeps sb self prog before middle)
    (second : ∀ outcome, Keeps sb self (next outcome) middle after) :
    Keeps sb self (prog >>= next) before after := by
  refine Safe.bind first fun outcome learnt reached => ?_
  subst reached
  exact second outcome

theorem perform (effect : ∀ kernel knowledge answer next, LogSound kernel knowledge →
      knowledge self = before → sem sb value self operation kernel = .done answer next →
      LogSound next (update knowledge self after)) :
    Keeps sb self (.perform operation) before after := by
  refine Safe.perform trivial fun kernel knowledge sound _ mine => ?_
  cases done : sem sb value self operation kernel with
  | wait => trivial
  | stop reason => trivial
  | done answer next =>
    exact ⟨after, effect kernel knowledge answer next sound mine done, rfl⟩

theorem plain (plain : prog.All (Plain logged))
    (inside : logged = true → ∃ depth, before = .op (depth + 1)) :
    Keeps sb self prog before before := by
  induction prog with
  | pure outcome => rfl
  | op operation next induction =>
    refine ⟨trivial, fun kernel knowledge sound _ mine => ?_⟩
    cases done : sem sb _ self operation kernel with
    | wait => trivial
    | stop reason => trivial
    | done answer finish =>
      refine ⟨before, ?_, induction answer (plain.2 answer)⟩
      rw [← mine, update_eq_self]
      exact Plain.sound plain.1 inside sound mine done

theorem outside (plain : prog.All (Plain false)) (point : LogPoint) :
    Keeps sb self prog point point := .plain plain nofun

theorem inside (plain : prog.All (Plain true)) (depth : Nat) :
    Keeps sb self prog (.op (depth + 1)) (.op (depth + 1)) :=
  .plain plain fun _ => ⟨depth, rfl⟩

/-! Transactions. -/

theorem beginOp (depth : Nat) : Keeps sb self Disk.beginOp (.op depth) (.op (depth + 1)) :=
  .perform fun _ _ _ _ sound mine done => sound.beginOp mine done

theorem writeLogFrom (count rounds : Nat) :
    Keeps sb self (Disk.writeLogFrom count rounds) point point := by
  induction rounds with
  | zero => exact .pure _
  | succ rounds induction =>
    refine .bind (.perform ?_) fun _ => induction
    intro kernel knowledge answer next sound mine done
    cases done
    rw [← mine, update_eq_self]
    exact sound.writeLog sb _

theorem writeHead : Keeps sb self (.perform .writeHead) point point := by
  refine .perform fun kernel knowledge answer next sound mine done => ?_
  cases done
  rw [← mine, update_eq_self]
  exact sound.writeHead sb

theorem installFrom (bound : rounds ≤ count) :
    Keeps sb self (Disk.installFrom count rounds) (.commit count (count - rounds))
      (.commit count count) := by
  induction rounds with
  | zero => exact .pure _
  | succ rounds induction =>
    have next : count - (rounds + 1) + 1 = count - rounds := by omega
    refine .bind (.perform ?_) fun _ => induction (by omega)
    intro kernel knowledge answer finish sound mine done
    cases done
    rw [← next]
    exact sound.install sb mine (by omega)

theorem clearLog : Keeps sb self (.perform .clearLog) (.commit count count) (.commit 0 0) := by
  refine .perform fun kernel knowledge answer next sound mine done => ?_
  cases done
  exact sound.clearLog mine

theorem commit : Keeps sb self Disk.commit (.commit count 0) (.commit 0 0) := by
  refine ⟨trivial, fun kernel knowledge sound _ mine => ?_⟩
  refine ⟨.commit count 0, ?_, ?_⟩
  · rw [← mine, update_eq_self]
    exact sound
  have length := (sound.committing mine).2
  change Keeps sb self (if 0 < kernel.lh.length then _ else _) _ _
  rw [length]
  split
  · have installed : Keeps sb self (Disk.installFrom count count)
        (.commit count (count - count)) (.commit count count) :=
      installFrom (le_refl count)
    rw [Nat.sub_self] at installed
    exact .bind (writeLogFrom count count) fun _ =>
      .bind writeHead fun _ => .bind installed fun _ =>
        .bind clearLog fun _ => writeHead
  next empty =>
    have none : count = 0 := by omega
    subst none
    exact .pure _

theorem finishOp : Keeps sb self (.perform .finishOp) (.commit 0 0) (.op 0) := by
  refine .perform fun kernel knowledge answer next sound mine done => ?_
  cases done
  exact sound.finishOp mine

theorem endOp (depth : Nat) : Keeps sb self Disk.endOp (.op (depth + 1)) (.op depth) := by
  refine ⟨trivial, fun kernel knowledge sound _ mine => ?_⟩
  cases done : sem sb _ self .endOp kernel with
  | wait => trivial
  | stop reason => trivial
  | done last next =>
    obtain ⟨final, kept⟩ := sound.endOp mine done
    refine ⟨_, kept, ?_⟩
    cases last with
    | false => rfl
    | true =>
      rw [final rfl]
      have finish : Keeps sb self (do Disk.commit; .perform .finishOp)
          (.commit kernel.lh.length 0) (.op 0) :=
        .bind commit fun _ => finishOp
      exact finish

/-! System calls. -/

theorem finish (depth : Nat) (outcome : value) :
    Keeps sb self (do Disk.endOp; Pure.pure outcome) (.op (depth + 1)) (.op depth) :=
  .bind (endOp depth) fun _ => .pure _

theorem fileclose (f : Fin nfile) (depth : Nat) :
    Keeps sb self (Disk.fileclose sb f) (.op depth) (.op depth) := by
  refine .bind (.outside (filedrop_plain f) _) fun dropped => ?_
  cases dropped with
  | none => exact .pure _
  | some file =>
    dsimp only
    split
    · exact .pure _
    · exact .bind (beginOp depth) fun _ =>
        .bind (.inside (iput_plain sb file.ip) depth) fun _ => endOp depth

theorem sysRead (fd : Option (Fin nofile)) (dst : Nat → Nat → Bool) (n device : Int)
    (point : LogPoint) : Keeps sb self (Disk.sysRead sb fd dst n device) point point := by
  refine .bind (.outside (readMem_plain _) _) fun found => ?_
  cases found with
  | none => exact .pure _
  | some entry =>
    refine .bind (.outside (readMem_plain _) _) fun file => ?_
    split
    · exact .pure _
    split
    · exact .pure _
    · exact .outside (filereadInode_plain sb _ _ dst n) _
    · exact .fail _

theorem filewriteChunk (f : Fin nfile) (ip : Fin ninode) (src : Source) (count : Nat) :
    Keeps sb self (Disk.filewriteChunk sb f ip src count) (.op 0) (.op 0) :=
  .bind (beginOp 0) fun _ =>
    .bind (.inside (ilock_plain sb ip) 0) fun _ =>
      .bind (.inside (readMem_plain _) 0) fun _ =>
        .bind (.inside (writei_plain sb ip src _ _) 0) fun written =>
          .bind (.inside (writeMem_plain _) 0) fun _ =>
            .bind (.inside (iunlock_plain ip) 0) fun _ => finish 0 written

theorem filewriteLoop (f : Fin nfile) (ip : Fin ninode) (src : Source) (n : Int) (rounds i : Nat) :
    Keeps sb self (Disk.filewriteLoop sb f ip src n rounds i) (.op 0) (.op 0) := by
  induction rounds generalizing i with
  | zero => exact .pure _
  | succ rounds induction =>
    unfold Disk.filewriteLoop
    split
    · refine .bind (filewriteChunk f ip _ _) fun written => ?_
      split
      · exact induction _
      · exact .pure _
    · exact .pure _

theorem sysWrite (fd : Option (Fin nofile)) (src : Source) (n device : Int) :
    Keeps sb self (Disk.sysWrite sb fd src n device) (.op 0) (.op 0) := by
  refine .bind (.outside (readMem_plain _) _) fun found => ?_
  cases found with
  | none => exact .pure _
  | some entry =>
    refine .bind (.outside (readMem_plain _) _) fun file => ?_
    split
    · exact .pure _
    split
    · exact .pure _
    · exact filewriteLoop _ _ src n _ _
    · exact .fail _

theorem sysClose (fd : Option (Fin nofile)) :
    Keeps sb self (Disk.sysClose sb fd) (.op 0) (.op 0) := by
  refine .bind (.outside (readMem_plain _) _) fun found => ?_
  cases found with
  | none => exact .pure _
  | some entry =>
    exact .bind (.outside (writeMem_plain _) _) fun _ =>
      .bind (fileclose _ 0) fun _ => .pure _

theorem linkInode (new : Path) (ip : Fin ninode) :
    Keeps sb self (Disk.linkInode sb new ip) (.op 1) (.op 0) := by
  refine .bind (.inside (setNlink_plain sb ip _) 0) fun _ =>
    .bind (.inside (iunlock_plain ip) 0) fun _ =>
      .bind (.inside (linkAt_plain sb new ip) 0) fun linked => ?_
  split
  · exact .bind (.inside (iput_plain sb ip) 0) fun _ => finish 0 _
  · exact .bind (.inside (ilock_plain sb ip) 0) fun _ =>
      .bind (.inside (setNlink_plain sb ip _) 0) fun _ =>
        .bind (.inside (iunlockput_plain sb ip) 0) fun _ => finish 0 _

theorem sysLink (old new : Option Path) :
    Keeps sb self (Disk.sysLink sb old new) (.op 0) (.op 0) := by
  unfold Disk.sysLink
  split
  next old new =>
    refine .bind (beginOp 0) fun _ =>
      .bind (.inside (namei_plain sb old) 0) fun found => ?_
    cases found with
    | none => exact finish 0 _
    | some ip =>
      refine .bind (.inside (ilock_plain sb ip) 0) fun _ =>
        .bind (.inside (readIp_plain ip) 0) fun entry => ?_
      split
      · exact .bind (.inside (iunlockput_plain sb ip) 0) fun _ =>
          finish 0 _
      · exact linkInode new ip
  next => exact .pure _

theorem unlinkBad (dp : Fin ninode) : Keeps sb self (Disk.unlinkBad sb dp) (.op 1) (.op 0) :=
  .bind (.inside (iunlockput_plain sb dp) 0) fun _ => finish 0 _

theorem unlinkRest (dp ip : Fin ninode) :
    Keeps sb self (Disk.unlinkRest sb dp ip) (.op 1) (.op 0) :=
  .bind (.inside (iunlockput_plain sb dp) 0) fun _ =>
    .bind (.inside (setNlink_plain sb ip _) 0) fun _ =>
      .bind (.inside (iunlockput_plain sb ip) 0) fun _ => finish 0 _

theorem unlinkEntry (dp ip : Fin ninode) (off : Nat) :
    Keeps sb self (Disk.unlinkEntry sb dp ip off) (.op 1) (.op 0) := by
  refine .bind (.inside (ilock_plain sb ip) 0) fun _ =>
    .bind (.inside (unlinkable_plain sb ip) 0) fun fine => ?_
  split
  · refine .bind (.inside (writei_plain sb dp _ _ _) 0) fun written => ?_
    split
    · exact .fail _
    refine .bind (.inside (readIp_plain ip) 0) fun entry => ?_
    split
    · exact .bind (.inside (setNlink_plain sb dp _) 0) fun _ =>
        unlinkRest dp ip
    · exact unlinkRest dp ip
  · exact .bind (.inside (iunlockput_plain sb ip) 0) fun _ => unlinkBad dp

theorem sysUnlink (path : Option Path) :
    Keeps sb self (Disk.sysUnlink sb path) (.op 0) (.op 0) := by
  cases path with
  | none => exact .pure _
  | some path =>
    refine .bind (beginOp 0) fun _ =>
      .bind (.inside (nameiparent_plain sb path) 0) fun found => ?_
    cases found with
    | none => exact finish 0 _
    | some parent =>
      refine .bind (.inside (ilock_plain sb _) 0) fun _ => ?_
      split
      · exact unlinkBad _
      refine .bind (.inside (dirlookup_plain sb _ _) 0) fun found => ?_
      cases found with
      | none => exact unlinkBad _
      | some entry => exact unlinkEntry _ _ _

theorem openFail (ip : Fin ninode) : Keeps sb self (Disk.openFail sb ip) (.op 1) (.op 0) :=
  .bind (.inside (iunlockput_plain sb ip) 0) fun _ => finish 0 _

theorem openFile (fd : Fin nofile) (f : Fin nfile) (ip : Fin ninode) (omode : Nat) :
    Keeps sb self (Disk.openFile sb fd f ip omode) (.op 1) (.op 0) := by
  refine .bind (.inside (writeMem_plain _) 0) fun _ =>
    .bind (.inside (readIp_plain ip) 0) fun entry => ?_
  have done : Keeps sb self (Disk.openDone fd ip) (.op 1) (.op 0) :=
    .bind (.inside (iunlock_plain ip) 0) fun _ => finish 0 _
  split
  · exact .bind (.inside (itrunc_plain sb ip) 0) fun _ => done
  · exact done

theorem openFrom (ip : Fin ninode) (omode : Nat) :
    Keeps sb self (Disk.openFrom sb ip omode) (.op 1) (.op 0) := by
  refine .bind (.inside (readIp_plain ip) 0) fun entry => ?_
  split
  · exact openFail ip
  refine .bind (.inside filealloc_plain 0) fun file => ?_
  cases file with
  | none => exact openFail ip
  | some f =>
    refine .bind (.inside (fdalloc_plain f) 0) fun found => ?_
    cases found with
    | none => exact .bind (fileclose f 1) fun _ => openFail ip
    | some fd => exact openFile fd f ip omode

theorem sysOpen (path : Option Path) (omode : Nat) :
    Keeps sb self (Disk.sysOpen sb path omode) (.op 0) (.op 0) := by
  cases path with
  | none => exact .pure _
  | some path =>
    refine .bind (beginOp 0) fun _ =>
      .bind (.inside (openInode_plain sb path omode) 0) fun found => ?_
    cases found with
    | none => exact finish 0 _
    | some ip => exact openFrom ip omode

theorem sysCreate (path : Option Path) (type major minor : BitVec 16) :
    Keeps sb self (Disk.sysCreate sb path type major minor) (.op 0) (.op 0) := by
  refine .bind (beginOp 0) fun _ => ?_
  cases path with
  | none => exact finish 0 _
  | some path =>
    refine .bind (.inside (create_plain sb path type major minor) 0) fun found => ?_
    cases found with
    | none => exact finish 0 _
    | some ip =>
      exact .bind (.inside (iunlockput_plain sb ip) 0) fun _ =>
        finish 0 _

theorem onInode (inum : Nat) (ops : List InodeOp) :
    Keeps sb self (Disk.onInode sb inum ops) (.op 0) (.op 0) := by
  unfold Disk.onInode
  split
  · exact .bind (beginOp 0) fun _ =>
      .bind (.inside (iget_plain inum) 0) fun ip =>
        .bind (.inside (ilock_plain sb ip) 0) fun _ =>
          .bind (.inside (inodeOps_plain sb ip ops) 0) fun _ =>
            .bind (.inside (iunlockput_plain sb ip) 0) fun _ => finish 0 _
  · exact .pure _

theorem body (request : Call) : Keeps sb self (request.body sb) (.op 0) (.op 0) := by
  cases request with
  | read fd dst n device => exact sysRead fd dst n device _
  | write fd src n device => exact sysWrite fd src n device
  | close fd => exact sysClose fd
  | open_ path omode => exact sysOpen path omode
  | mkdir path => exact sysCreate path _ _ _
  | mknod path major minor => exact sysCreate path _ major minor
  | link old new => exact sysLink old new
  | unlink path => exact sysUnlink path
  | onInode inum ops => exact onInode inum ops
  | recycle b =>
    exact .bind (.outside (recycle_plain b) _) fun _ => .pure _

end Keeps

end Xv6Lottery.Disk
