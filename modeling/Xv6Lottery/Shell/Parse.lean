import Mathlib.Logic.Function.Basic
import Mathlib.Data.UInt

/-! The parser of sh.c. A `char *` into the line is the index of the character. -/

namespace Xv6Lottery.Shell

open Function (update)

inductive Stop where
  | missingFile
  | parseblock
  | missingParen
  | syntaxError
  | tooManyArgs
  /-- The loops have not come to an end within the rounds. -/
  | unfinished
  deriving DecidableEq

/-- `MAXARGS` -/
def maxargs : Nat := 10

/-- `strchr(whitespace, c)` -/
def space (c : UInt8) : Bool := c ∈ [32, 9, 13, 10, 11]

/-- `strchr(symbols, c)` -/
def symbol (c : UInt8) : Bool := c ∈ [60, 124, 62, 38, 59, 40, 41]

def wordChar (c : UInt8) : Bool := !space c && !symbol c

structure Token where
  ret : UInt8
  q : Nat
  eq : Nat
  next : Nat

/-- `argv` and `eargv` are a list of pairs. -/
inductive Cmd where
  | exec (argv : List (Nat × Nat))
  | redir (cmd : Cmd) (file efile mode fd : Nat)
  | pipe (left right : Cmd)
  | list (left right : Cmd)
  | back (cmd : Cmd)

structure Redir where
  file : Nat
  efile : Nat
  mode : Nat
  fd : Nat

/-- redircmd() around a command, the first one innermost. -/
def wrap (cmd : Cmd) (redirs : List Redir) : Cmd :=
  redirs.foldl (fun cmd redir => .redir cmd redir.file redir.efile redir.mode redir.fd) cmd

section

variable (text : List UInt8)

/-- `while(s < es && strchr(whitespace, *s)) s++` -/
def skip (s : Nat) : Nat := s + ((text.drop s).takeWhile space).length

def char (s : Nat) : UInt8 := text.getD s 0

def gettoken (ps : Nat) : Token :=
  let q := skip text ps
  let c := char text q
  let (ret, eq) :=
    if c = 0 then (0, q)
    else if c ∈ [124, 40, 41, 59, 38, 60] then (c, q + 1)
    else if c = 62 then if char text (q + 1) = 62 then (43, q + 2) else (62, q + 1)
    else (97, q + ((text.drop q).takeWhile wordChar).length)
  ⟨ret, q, eq, skip text eq⟩

/-- peek(): it moves the pointer to `skip text ps`. -/
def peek (ps : Nat) (toks : List UInt8) : Bool :=
  char text (skip text ps) ≠ 0 ∧ char text (skip text ps) ∈ toks

/-- The `mode` and the `fd` of a redirection. -/
def redirection (tok file : Token) : Redir :=
  if tok.ret = 60 then ⟨file.q, file.eq, 0, 0⟩
  else if tok.ret = 62 then ⟨file.q, file.eq, 0x601, 1⟩
  else ⟨file.q, file.eq, 0x201, 1⟩

/-- parseredirs(): what it wraps around the command. -/
def parseredirs : Nat → Nat → Except Stop (List Redir × Nat)
  | 0, _ => .error .unfinished
  | rounds + 1, ps =>
    if peek text ps [60, 62] then
      let tok := gettoken text (skip text ps)
      let file := gettoken text tok.next
      if file.ret ≠ 97 then .error .missingFile
      else do
        let rest ← parseredirs rounds file.next
        .ok (redirection tok file :: rest.1, rest.2)
    else .ok ([], skip text ps)

/-- The loop of parseexec(). The command that it returns is around `cmd`,
which still gets its arguments. -/
def parseargs : Nat → List (Nat × Nat) → List Redir → Nat → Except Stop (Cmd × Nat)
  | 0, _, _, _ => .error .unfinished
  | rounds + 1, argv, redirs, ps =>
    let tok := gettoken text (skip text ps)
    if peek text ps [124, 41, 38, 59] then .ok (wrap (.exec argv) redirs, skip text ps)
    else if tok.ret = 0 then .ok (wrap (.exec argv) redirs, tok.next)
    else if tok.ret ≠ 97 then .error .syntaxError
    else if argv.length + 1 ≥ maxargs then .error .tooManyArgs
    else do
      let more ← parseredirs text rounds tok.next
      parseargs rounds (argv ++ [(tok.q, tok.eq)]) (redirs ++ more.1) more.2

/-- The loop of parseline(). -/
def parseback : Nat → Cmd → Nat → Except Stop (Cmd × Nat)
  | 0, _, _ => .error .unfinished
  | rounds + 1, cmd, ps =>
    if peek text ps [38] then parseback rounds (.back cmd) (gettoken text (skip text ps)).next
    else .ok (cmd, skip text ps)

mutual

def parseline : Nat → Nat → Except Stop (Cmd × Nat)
  | 0, _ => .error .unfinished
  | rounds + 1, ps => do
    let left ← parsepipe rounds ps
    let left ← parseback text rounds left.1 left.2
    if peek text left.2 [59] then do
      let right ← parseline rounds (gettoken text (skip text left.2)).next
      .ok (.list left.1 right.1, right.2)
    else .ok (left.1, skip text left.2)

def parsepipe : Nat → Nat → Except Stop (Cmd × Nat)
  | 0, _ => .error .unfinished
  | rounds + 1, ps => do
    let left ← parseexec rounds ps
    if peek text left.2 [124] then do
      let right ← parsepipe rounds (gettoken text (skip text left.2)).next
      .ok (.pipe left.1 right.1, right.2)
    else .ok (left.1, skip text left.2)

def parseblock : Nat → Nat → Except Stop (Cmd × Nat)
  | 0, _ => .error .unfinished
  | rounds + 1, ps =>
    if peek text ps [40] then do
      let cmd ← parseline rounds (gettoken text (skip text ps)).next
      if peek text cmd.2 [41] then do
        let redirs ← parseredirs text rounds (gettoken text (skip text cmd.2)).next
        .ok (wrap cmd.1 redirs.1, redirs.2)
      else .error .missingParen
    else .error .parseblock

def parseexec : Nat → Nat → Except Stop (Cmd × Nat)
  | 0, _ => .error .unfinished
  | rounds + 1, ps =>
    if peek text ps [40] then parseblock rounds (skip text ps)
    else do
      let redirs ← parseredirs text rounds (skip text ps)
      parseargs text rounds [] redirs.1 redirs.2

end

/-- parsecmd() up to nulterminate(). -/
def parsecmd (rounds : Nat) : Except Stop Cmd := do
  let line ← parseline text rounds 0
  if skip text line.2 ≠ text.length then .error .syntaxError else .ok line.1

end

/-- nulterminate() on the bytes of the line. -/
def nulterminate : Cmd → (Nat → UInt8) → Nat → UInt8
  | .exec argv, buf => argv.foldl (fun buf arg => update buf arg.2 0) buf
  | .redir cmd _ efile _ _, buf => update (nulterminate cmd buf) efile 0
  | .pipe left right, buf | .list left right, buf => nulterminate right (nulterminate left buf)
  | .back cmd, buf => nulterminate cmd buf

/-- Where the arguments and file names of a command start and end. -/
def Cmd.tokens : Cmd → List (Nat × Nat)
  | .exec argv => argv
  | .redir cmd file efile _ _ => (file, efile) :: cmd.tokens
  | .pipe left right | .list left right => left.tokens ++ right.tokens
  | .back cmd => cmd.tokens

end Xv6Lottery.Shell
