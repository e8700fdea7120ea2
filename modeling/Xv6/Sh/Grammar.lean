import Xv6.Sh.Basic

/-!
# The grammar of command lines

    line  ::= pipe '&'* (';' line)?
    pipe  ::= exec ('|' pipe)?
    exec  ::= '(' line ')' redir* | redir* (word redir*)*
    redir ::= ('<' | '>' | '>>') word

with fewer than `MAXARGS` words in a simple command. A derivation determines a command: `Line ts t`
says that the tokens `ts` derive the command `t`. The tokens of a line are what `gettoken` returns
when it is called again and again.
-/

namespace Sh

/-- The tokens of a line. -/
inductive Token where
  | word (text : List Char)
  | less
  | great
  | append
  | bar
  | lparen
  | rparen
  | semi
  | amp
deriving DecidableEq

/-- A command with its strings. -/
abbrev Tree : Type := Cmd (List Char)

/-- A redirection: how to open the file, for which descriptor, and its name. -/
structure Redirect where
  mode : Nat
  fd : Nat
  file : List Char

/-- The operators of redirections. -/
def Token.redirect : Token → Option (Nat × Nat)
  | .less => some (O_RDONLY, 0)
  | .great => some (O_WRONLY ||| O_CREATE ||| O_TRUNC, 1)
  | .append => some (O_WRONLY ||| O_CREATE, 1)
  | _ => none

/-- The C string at a position. -/
def stringAt (text : List Char) (p : Nat) : List Char :=
  (text.drop p).takeWhile (· ≠ '\x00')

namespace Cmd

variable {α : Type}

/-- A command under redirections, the later ones outside. -/
def wrap (cmd : Tree) (redirects : List Redirect) : Tree :=
  redirects.foldl (fun cmd r => .redir cmd r.file r.mode r.fd) cmd

/-- A command followed by `n` times `&`. -/
def backs : Nat → Cmd α → Cmd α
  | 0, cmd => cmd
  | n + 1, cmd => backs n (.back cmd)

/-- The strings of a command, as the program reads them from the text of the line: each up to its
NUL. -/
def read (text : List Char) : Cmd Pointers → Tree
  | .exec argv => .exec (argv.map fun arg => stringAt text arg.1)
  | .redir cmd file mode fd => .redir (cmd.read text) (stringAt text file.1) mode fd
  | .pipe left right => .pipe (left.read text) (right.read text)
  | .list left right => .list (left.read text) (right.read text)
  | .back cmd => .back (cmd.read text)

end Cmd

/-! ## Derivations -/

/-- `redir*` -/
inductive Redirs : List Token → List Redirect → Prop
  | nil : Redirs [] []
  | cons {op : Token} {mode fd : Nat} {file : List Char} {ts : List Token} {rs : List Redirect} :
      op.redirect = some (mode, fd) → Redirs ts rs →
      Redirs (op :: .word file :: ts) (⟨mode, fd, file⟩ :: rs)

/-- `(word redir*)*` -/
inductive Args : List Token → List (List Char) → List Redirect → Prop
  | nil : Args [] [] []
  | cons {w : List Char} {ts us : List Token} {ws : List (List Char)} {rs rs' : List Redirect} :
      Redirs ts rs → Args us ws rs' → Args (.word w :: (ts ++ us)) (w :: ws) (rs ++ rs')

mutual

inductive Line : List Token → Tree → Prop
  | last {ts : List Token} {t : Tree} (n : Nat) :
      Pipe ts t → Line (ts ++ List.replicate n .amp) (.backs n t)
  | more {ts us : List Token} {t u : Tree} (n : Nat) :
      Pipe ts t → Line us u →
      Line (ts ++ (List.replicate n .amp ++ .semi :: us)) (.list (.backs n t) u)

inductive Pipe : List Token → Tree → Prop
  | last {ts : List Token} {t : Tree} : Exec ts t → Pipe ts t
  | more {ts us : List Token} {t u : Tree} :
      Exec ts t → Pipe us u → Pipe (ts ++ .bar :: us) (.pipe t u)

inductive Exec : List Token → Tree → Prop
  | block {ts us : List Token} {t : Tree} {rs : List Redirect} :
      Line ts t → Redirs us rs → Exec (.lparen :: (ts ++ .rparen :: us)) (t.wrap rs)
  | simple {ts us : List Token} {ws : List (List Char)} {rs rs' : List Redirect} :
      Redirs ts rs → Args us ws rs' → ws.length < MAXARGS →
      Exec (ts ++ us) (Cmd.wrap (.exec ws) (rs ++ rs'))

end

/-! ## The tokens of a line -/

/-- The token that a call of `gettoken` found. -/
def Scan.token (line : List Char) (scan : Scan) : Token :=
  if scan.ret = 'a' then .word ((line.drop scan.q).take (scan.eq - scan.q))
  else if scan.ret = '<' then .less
  else if scan.ret = '>' then .great
  else if scan.ret = '+' then .append
  else if scan.ret = '|' then .bar
  else if scan.ret = '(' then .lparen
  else if scan.ret = ')' then .rparen
  else if scan.ret = ';' then .semi
  else .amp

/-- The tokens that at most `calls` calls of `gettoken` find from `ps` on. -/
def tokensFrom (line : List Char) : Nat → Nat → List Token
  | 0, _ => []
  | calls + 1, ps =>
    let scan := gettoken line ps
    if scan.ret = '\x00' then [] else scan.token line :: tokensFrom line calls scan.ps

/-- The tokens of a line; there are no more than it has characters. -/
def tokens (line : List Char) : List Token :=
  tokensFrom line line.length 0

end Sh
