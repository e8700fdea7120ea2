import Xv6.Lib.Fuel

/-!
# The shell parser

`gettoken`, `peek` and the parsing procedures of `user/sh.c`. The line is the text of the command
up to its terminating NUL, and pointers into it are positions; a read at the end gives the NUL. A
command's strings are kept, as in the source, by where they start and where they end, until
`nulterminate` writes a NUL at each end.

The procedures call each other on a shared cursor and have loops of their own. All of them are
bounded by the `fuel` of the call; a panic is an error.
-/

namespace Sh

/-- The panics of the parser. -/
inductive Panic where
  /-- `leftovers: ` and the rest of the line, then `panic("syntax")` -/
  | leftovers
  /-- `panic("syntax")` -/
  | unexpected
  /-- `panic("missing file for redirection")` -/
  | missingFile
  /-- `panic("parseblock")` -/
  | parseblock
  /-- `panic("syntax - missing )")` -/
  | missingParen
  /-- `panic("too many args")` -/
  | tooManyArgs
deriving DecidableEq

/-- `struct cmd` of each type, over its strings. -/
inductive Cmd (α : Type) where
  | exec (argv : List α)
  | redir (cmd : Cmd α) (file : α) (mode fd : Nat)
  | pipe (left right : Cmd α)
  | list (left right : Cmd α)
  | back (cmd : Cmd α)
deriving DecidableEq

/-- A string by its first position and the one past its end: `argv[i]` and `eargv[i]`, or `file`
and `efile`. -/
abbrev Pointers := Nat × Nat

def MAXARGS : Nat := 10

def O_RDONLY : Nat := 0x000
def O_WRONLY : Nat := 0x001
def O_CREATE : Nat := 0x200
def O_TRUNC : Nat := 0x400

def whitespace (c : Char) : Bool :=
  c ∈ [' ', '\t', '\r', '\n', '\x0b']

def symbols (c : Char) : Bool :=
  c ∈ ['<', '|', '>', '&', ';', '(', ')']

/-- The characters that the scan of a word passes over. -/
def wordChar (c : Char) : Bool :=
  !whitespace c && !symbols c

structure Scan where
  ret : Char
  q : Nat
  eq : Nat
  ps : Nat

namespace Cmd

variable {α : Type}

/-- `cmd->argv[argc] = q; cmd->eargv[argc] = eq` for the EXEC command inside the redirections. -/
def addArg : Cmd α → α → Cmd α
  | .exec argv, arg => .exec (argv ++ [arg])
  | .redir cmd file mode fd, arg => .redir (cmd.addArg arg) file mode fd
  | cmd, _ => cmd

/-- The `switch` of `parseredirs` on the operator. -/
def redirect (cmd : Cmd α) (tok : Char) (file : α) : Cmd α :=
  if tok = '<' then .redir cmd file O_RDONLY 0
  else if tok = '>' then .redir cmd file (O_WRONLY ||| O_CREATE ||| O_TRUNC) 1
  else if tok = '+' then .redir cmd file (O_WRONLY ||| O_CREATE) 1
  else cmd

def nulterminate : Cmd Pointers → List Char → List Char
  | .exec argv, text => argv.foldl (fun text arg => text.set arg.2 '\x00') text
  | .redir cmd file _ _, text => (cmd.nulterminate text).set file.2 '\x00'
  | .pipe left right, text => right.nulterminate (left.nulterminate text)
  | .list left right, text => right.nulterminate (left.nulterminate text)
  | .back cmd, text => cmd.nulterminate text

end Cmd

section Parser

variable (line : List Char)

def deref (s : Nat) : Char :=
  line.getD s '\x00'

/-- `while(s < es && p(*s)) s++;` -/
def skip (p : Char → Bool) (s : Nat) : Nat :=
  s + ((line.drop s).takeWhile p).length

def gettoken (ps : Nat) : Scan :=
  let q := skip line whitespace ps
  let c := deref line q
  let (ret, eq) :=
    if c = '\x00' then ('\x00', q)
    else if c ∈ ['|', '(', ')', ';', '&', '<'] then (c, q + 1)
    else if c = '>' then
      if deref line (q + 1) = '>' then ('+', q + 2) else ('>', q + 1)
    else ('a', skip line wordChar q)
  { ret, q, eq, ps := skip line whitespace eq }

/-- The result of `peek` and the new cursor. -/
def peek (toks : List Char) (ps : Nat) : Bool × Nat :=
  let s := skip line whitespace ps
  (deref line s ≠ '\x00' && deref line s ∈ toks, s)

/-- The result of a parsing procedure: a command and the cursor after it. -/
abbrev Parsed : Type := Fueled Panic (Cmd Pointers × Nat)

def parseredirs : Nat → Cmd Pointers → Nat → Parsed
  | 0, _, _ => .out
  | fuel + 1, cmd, ps =>
    let (more, ps) := peek line ['<', '>'] ps
    if more then
      let op := gettoken line ps
      let file := gettoken line op.ps
      if file.ret ≠ 'a' then .error .missingFile
      else parseredirs fuel (cmd.redirect op.ret (file.q, file.eq)) file.ps
    else .ok (cmd, ps)

/-- The loop of `parseexec` over the words of a command. -/
def parseargs : Nat → Cmd Pointers → Nat → Nat → Parsed
  | 0, _, _, _ => .out
  | fuel + 1, ret, argc, ps =>
    let (stop, ps) := peek line ['|', ')', '&', ';'] ps
    if stop then .ok (ret, ps)
    else
      let tok := gettoken line ps
      if tok.ret = '\x00' then .ok (ret, tok.ps)
      else if tok.ret ≠ 'a' then .error .unexpected
      else
        let ret := ret.addArg (tok.q, tok.eq)
        let argc := argc + 1
        if argc ≥ MAXARGS then .error .tooManyArgs
        else do
          let (ret, ps) ← parseredirs line fuel ret tok.ps
          parseargs fuel ret argc ps

/-- The loop of `parseline` over `&`. -/
def parsebacks : Nat → Cmd Pointers → Nat → Parsed
  | 0, _, _ => .out
  | fuel + 1, cmd, ps =>
    let (more, ps) := peek line ['&'] ps
    if more then parsebacks fuel (.back cmd) (gettoken line ps).ps
    else .ok (cmd, ps)

mutual

def parseline : Nat → Nat → Parsed
  | 0, _ => .out
  | fuel + 1, ps => do
      let (cmd, ps) ← parsepipe fuel ps
      let (cmd, ps) ← parsebacks line fuel cmd ps
      let (semi, ps) := peek line [';'] ps
      if semi then
        let (right, ps) ← parseline fuel (gettoken line ps).ps
        .ok (.list cmd right, ps)
      else .ok (cmd, ps)
termination_by structural fuel => fuel

def parsepipe : Nat → Nat → Parsed
  | 0, _ => .out
  | fuel + 1, ps => do
      let (cmd, ps) ← parseexec fuel ps
      let (bar, ps) := peek line ['|'] ps
      if bar then
        let (right, ps) ← parsepipe fuel (gettoken line ps).ps
        .ok (.pipe cmd right, ps)
      else .ok (cmd, ps)
termination_by structural fuel => fuel

def parseexec : Nat → Nat → Parsed
  | 0, _ => .out
  | fuel + 1, ps =>
    let (paren, ps) := peek line ['('] ps
    if paren then parseblock fuel ps
    else do
      let (ret, ps) ← parseredirs line fuel (.exec []) ps
      parseargs line fuel ret 0 ps
termination_by structural fuel => fuel

def parseblock : Nat → Nat → Parsed
  | 0, _ => .out
  | fuel + 1, ps =>
    let (paren, ps) := peek line ['('] ps
    if !paren then .error .parseblock
    else do
      let (cmd, ps) ← parseline fuel (gettoken line ps).ps
      let (close, ps) := peek line [')'] ps
      if !close then .error .missingParen
      else parseredirs line fuel cmd (gettoken line ps).ps
termination_by structural fuel => fuel

end

/-- `parsecmd`: the command and the text of the line with its strings terminated. -/
def parsecmd (fuel : Nat) : Fueled Panic (Cmd Pointers × List Char) := do
  let (cmd, ps) ← parseline line fuel 0
  let (_, ps) := peek line [] ps
  if ps ≠ line.length then .error .leftovers
  else .ok (cmd, cmd.nulterminate line)

end Parser

end Sh
