import Mathlib.Data.List.Forall2
import Xv6.Sh.Descent
import Xv6.Sh.Scan

/-!
# The parser accepts its grammar

The parser on the characters of a line takes the same course as the recursive descent over its
tokens, with pointers into the line where the other has words. After `nulterminate` the pointers
are C strings that read those words. So `parsecmd` ends, succeeds on exactly the lines whose tokens
are derivable, and returns the command of the derivation.
-/

namespace Sh

open List (append_nil getElem?_drop map_cons)

namespace Cmd

variable {α β : Type}

/-- Commands of the same shape with related strings. -/
inductive Rel (R : α → β → Prop) : Cmd α → Cmd β → Prop
  | exec {argv : List α} {words : List β} : List.Forall₂ R argv words →
      Rel R (.exec argv) (.exec words)
  | redir {cmd : Cmd α} {t : Cmd β} {p : α} {w : β} {mode fd : Nat} :
      Rel R cmd t → R p w → Rel R (.redir cmd p mode fd) (.redir t w mode fd)
  | pipe {left right : Cmd α} {t u : Cmd β} :
      Rel R left t → Rel R right u → Rel R (.pipe left right) (.pipe t u)
  | list {left right : Cmd α} {t u : Cmd β} :
      Rel R left t → Rel R right u → Rel R (.list left right) (.list t u)
  | back {cmd : Cmd α} {t : Cmd β} : Rel R cmd t → Rel R (.back cmd) (.back t)

theorem Rel.addArg (rel : Rel R cmd t) (arg : R p w) : Rel R (cmd.addArg p) (t.addArg w) := by
  induction rel with
  | exec args => exact .exec (List.rel_append args (.cons arg .nil))
  | redir _ file ih => exact .redir ih file
  | pipe left right => exact .pipe left right
  | list left right => exact .list left right
  | back cmd => exact .back cmd

end Cmd

/-! ## Characters and tokens -/

/-- A result over the characters and the one over the tokens: the same command, and the tokens
from the cursor on. -/
def Agree (line : List Char) (x : Cmd Pointers × Nat) (y : Tree × List Token) : Prop :=
  Cmd.Rel (Span line) x.1 y.1 ∧ x.2 ≤ line.length ∧ y.2 = tokensAt line x.2

section Simulation

variable {line : List Char} {ps fuel argc : Nat} {cmd : Cmd Pointers} {t : Tree}

theorem agree_skip (clean : '\x00' ∉ line) (rel : Cmd.Rel (Span line) cmd t)
    (inside : ps ≤ line.length) : Agree line (cmd, skip line whitespace ps) (t, tokensAt line ps) :=
  ⟨rel, skip_le inside, (tokensAt_skip clean).symm⟩

theorem next_word (clean : '\x00' ∉ line) (inside : ps ≤ line.length) :
    ((gettoken line ps).ret ≠ 'a' ∧ ∀ w rest, tokensAt line ps ≠ .word w :: rest) ∨
      ∃ w, (gettoken line ps).ret = 'a' ∧ (gettoken line ps).ps ≤ line.length ∧
        tokensAt line ps = .word w :: tokensAt line (gettoken line ps).ps ∧
        Span line ((gettoken line ps).q, (gettoken line ps).eq) w := by
  rcases tokensAt_cases clean inside with ⟨none, at_end⟩ | ⟨c, cs, t, some, -, found⟩
  · have done : line.drop (skip line whitespace ps) = [] :=
      List.drop_eq_nil_of_le (Nat.le_of_eq at_end.symm)
    refine .inl ⟨?_, ?_⟩
    · rw [(gettoken_nil done).1]
      decide
    · intro w rest word
      rw [none] at word
      cases word
  · rw [some, found.ret]
    rcases found.first with first | ⟨w, rfl, -, span⟩
    · refine .inl ?_
      cases t with
      | word w => cases first
      | _ => exact ⟨by decide, fun w rest word => by cases word⟩
    · exact .inr ⟨w, rfl, found.inside, rfl, span⟩

theorem starts_redirect : starts ['<', '>'] (op :: rest) = op.redirect.isSome := by
  cases op with
  | _ => rfl

theorem redirect_code {op : Token} (isOp : op.redirect = some (mode, fd)) :
    cmd.redirect op.code p = .redir cmd p mode fd := by
  cases op with
  | less | great | append => cases isOp; rfl
  | _ => cases isOp

theorem redirsOf_missing (isOp : op.redirect = some how)
    (missing : ∀ w rest', rest = .word w :: rest' → False) :
    redirsOf (fuel + 1) t (op :: rest) = .error .missingFile := by
  simp only [redirsOf, isOp]

section

variable (clean : '\x00' ∉ line) (rel : Cmd.Rel (Span line) cmd t) (inside : ps ≤ line.length)

include clean rel inside

theorem parseredirs_agree :
    Fueled.Rel (Agree line) (parseredirs line fuel cmd ps)
      (redirsOf fuel t (tokensAt line ps)) := by
  induction fuel generalizing cmd t ps with
  | zero => exact .out
  | succ fuel ih =>
    have still := agree_skip clean rel inside
    unfold parseredirs
    rw [peek_eq clean inside rfl]
    dsimp only
    rw [gettoken_skip]
    rcases tokensAt_cases clean inside with ⟨none, -⟩ | ⟨c, cs, op, some, -, found⟩
    · rw [none] at still ⊢
      exact .ok still
    rw [some] at still ⊢
    rw [starts_redirect]
    cases isOp : op.redirect with
    | none =>
      simp only [redirsOf, isOp]
      exact .ok still
    | some how =>
      obtain ⟨mode, fd⟩ := how
      rcases next_word clean found.inside with ⟨noFile, noWord⟩ | ⟨w, ret, within, word, span⟩
      · rw [if_pos noFile, redirsOf_missing isOp noWord]
        exact .error _
      · rw [if_neg (not_not_intro ret), word, found.ret, redirect_code isOp]
        simp only [redirsOf, isOp]
        exact ih (.redir rel span) within

theorem parseargs_agree :
    Fueled.Rel (Agree line) (parseargs line fuel cmd argc ps)
      (argsOf fuel t argc (tokensAt line ps)) := by
  induction fuel generalizing cmd t ps argc with
  | zero => exact .out
  | succ fuel ih =>
    have still := agree_skip clean rel inside
    unfold parseargs
    rw [peek_eq clean inside rfl]
    dsimp only
    rw [gettoken_skip]
    rcases tokensAt_cases clean inside with ⟨none, at_end⟩ | ⟨c, cs, op, some, -, found⟩
    · have done : line.drop (skip line whitespace ps) = [] :=
        List.drop_eq_nil_of_le (Nat.le_of_eq at_end.symm)
      obtain ⟨ret, cursor⟩ := gettoken_nil done
      rw [none] at still ⊢
      rw [ret, cursor]
      exact .ok still
    · rw [some] at still ⊢
      rw [found.ret]
      rcases found.first with first | ⟨w, rfl, -, span⟩
      · cases op with
        | word w => cases first
        | bar | rparen | amp | semi => exact .ok still
        | _ => exact .error _
      · simp only [starts, Token.first, Option.any_none, Token.code, Bool.false_eq_true, if_false,
          ne_eq, not_true_eq_false, argsOf]
        by_cases many : argc + 1 ≥ MAXARGS
        · rw [if_pos many, if_pos many]
          exact .error _
        · rw [if_neg many, if_neg many]
          refine (parseredirs_agree clean (rel.addArg span) found.inside).bind ?_
          rintro ⟨cmd, ps⟩ ⟨t, ts⟩ ⟨rel, inside, rfl⟩
          exact ih rel inside

theorem parsebacks_agree :
    Fueled.Rel (Agree line) (parsebacks line fuel cmd ps) (backsOf fuel t (tokensAt line ps)) := by
  induction fuel generalizing cmd t ps with
  | zero => exact .out
  | succ fuel ih =>
    have still := agree_skip clean rel inside
    unfold parsebacks
    rw [peek_eq clean inside rfl]
    dsimp only
    rw [gettoken_skip]
    rcases tokensAt_cases clean inside with ⟨none, -⟩ | ⟨c, cs, op, some, -, found⟩
    · rw [none] at still ⊢
      exact .ok still
    · rw [some] at still ⊢
      cases op with
      | amp => exact ih (.back rel) found.inside
      | _ => exact .ok still

end

/-- A procedure on the characters and one on the tokens take the same course. -/
def Agrees (line : List Char) (p : Nat → Parsed) (q : List Token → Derived) : Prop :=
  ∀ ps ≤ line.length, Fueled.Rel (Agree line) (p ps) (q (tokensAt line ps))

theorem parseline_agrees (clean : '\x00' ∉ line)
    (pipe : Agrees line (parsepipe line fuel) (pipeOf fuel))
    (rest : Agrees line (parseline line fuel) (lineOf fuel)) :
    Agrees line (parseline line (fuel + 1)) (lineOf (fuel + 1)) := by
  intro ps inside
  refine (pipe ps inside).bind ?_
  rintro ⟨cmd, ps⟩ ⟨t, ts⟩ ⟨rel, inside, rfl⟩
  refine (parsebacks_agree clean rel inside).bind ?_
  rintro ⟨cmd, ps⟩ ⟨t, ts⟩ ⟨rel, inside, rfl⟩
  have still := agree_skip clean rel inside
  dsimp only
  rw [peek_eq clean inside rfl]
  rw [gettoken_skip]
  rcases tokensAt_cases clean inside with ⟨none, -⟩ | ⟨c, cs, op, some, -, found⟩
  · rw [none] at still ⊢
    exact .ok still
  rw [some] at still ⊢
  cases op with
  | semi =>
    refine (rest _ found.inside).bind ?_
    rintro ⟨right, ps⟩ ⟨u, ts⟩ ⟨rel', inside, rfl⟩
    exact .ok ⟨.list rel rel', inside, rfl⟩
  | _ => exact .ok still

theorem parsepipe_agrees (clean : '\x00' ∉ line)
    (exec : Agrees line (parseexec line fuel) (execOf fuel))
    (rest : Agrees line (parsepipe line fuel) (pipeOf fuel)) :
    Agrees line (parsepipe line (fuel + 1)) (pipeOf (fuel + 1)) := by
  intro ps inside
  refine (exec ps inside).bind ?_
  rintro ⟨cmd, ps⟩ ⟨t, ts⟩ ⟨rel, inside, rfl⟩
  have still := agree_skip clean rel inside
  dsimp only
  rw [peek_eq clean inside rfl]
  rw [gettoken_skip]
  rcases tokensAt_cases clean inside with ⟨none, -⟩ | ⟨c, cs, op, some, -, found⟩
  · rw [none] at still ⊢
    exact .ok still
  rw [some] at still ⊢
  cases op with
  | bar =>
    refine (rest _ found.inside).bind ?_
    rintro ⟨right, ps⟩ ⟨u, ts⟩ ⟨rel', inside, rfl⟩
    exact .ok ⟨.pipe rel rel', inside, rfl⟩
  | _ => exact .ok still

/-- A block, at its opening parenthesis. -/
def BlockAgrees (line : List Char) (fuel : Nat) : Prop :=
  ∀ ps ≤ line.length, ∀ rest, tokensAt line ps = .lparen :: rest →
    Fueled.Rel (Agree line) (parseblock line fuel ps) (blockOf fuel rest)

theorem parseblock_agrees (clean : '\x00' ∉ line)
    (whole : Agrees line (parseline line fuel) (lineOf fuel)) : BlockAgrees line (fuel + 1) := by
  intro ps inside rest opens
  rcases tokensAt_cases clean inside with ⟨none, -⟩ | ⟨c, cs, op, some, -, found⟩
  · rw [none] at opens
    cases opens
  obtain ⟨rfl, rfl⟩ := List.cons.inj (some.symm.trans opens)
  unfold parseblock
  rw [peek_eq clean inside rfl, some]
  dsimp only
  rw [gettoken_skip]
  refine (whole _ found.inside).bind ?_
  rintro ⟨cmd, ps⟩ ⟨t, ts⟩ ⟨rel, inside, rfl⟩
  rw [peek_eq clean inside rfl]
  rw [gettoken_skip]
  rcases tokensAt_cases clean inside with ⟨none, -⟩ | ⟨c, cs, op, some, -, found⟩
  · rw [none]
    exact .error _
  · rw [some]
    cases op with
    | rparen => exact parseredirs_agree clean rel found.inside
    | _ => exact .error _

theorem parseexec_agrees (clean : '\x00' ∉ line) (block : BlockAgrees line fuel) :
    Agrees line (parseexec line (fuel + 1)) (execOf (fuel + 1)) := by
  intro ps inside
  have simple : Fueled.Rel (Agree line)
      (parseredirs line fuel (.exec []) (skip line whitespace ps) >>= fun x =>
        parseargs line fuel x.1 0 x.2)
      (redirsOf fuel (.exec []) (tokensAt line ps) >>= fun x => argsOf fuel x.1 0 x.2) := by
    rw [← tokensAt_skip clean]
    refine (parseredirs_agree clean (.exec .nil) (skip_le inside)).bind ?_
    rintro ⟨cmd, ps⟩ ⟨t, ts⟩ ⟨rel, inside, rfl⟩
    exact parseargs_agree clean rel inside
  unfold parseexec
  rw [peek_eq clean inside rfl]
  rcases tokensAt_cases clean inside with ⟨none, -⟩ | ⟨c, cs, op, some, -, found⟩
  · rw [none] at simple ⊢
    exact simple
  rw [some] at simple ⊢
  cases op with
  | lparen =>
    have opens : tokensAt line (skip line whitespace ps) =
        .lparen :: tokensAt line (gettoken line ps).ps :=
      (tokensAt_skip clean).trans some
    exact block _ (skip_le inside) _ opens
  | _ => exact simple

/-- **The parser over characters takes the course of the parser over tokens.** -/
theorem parse_agrees (clean : '\x00' ∉ line) (fuel : Nat) :
    Agrees line (parseline line fuel) (lineOf fuel) ∧
    Agrees line (parsepipe line fuel) (pipeOf fuel) ∧
    Agrees line (parseexec line fuel) (execOf fuel) ∧ BlockAgrees line fuel := by
  induction fuel with
  | zero => exact ⟨fun _ _ => .out, fun _ _ => .out, fun _ _ => .out, fun _ _ _ _ => .out⟩
  | succ fuel ih =>
    obtain ⟨whole, pipe, exec, block⟩ := ih
    exact ⟨parseline_agrees clean pipe whole, parsepipe_agrees clean exec pipe,
      parseexec_agrees clean block, parseblock_agrees clean whole⟩

end Simulation

/-! ## The strings -/

namespace Cmd

/-- The positions where `nulterminate` writes. -/
def ends : Cmd Pointers → List Nat
  | .exec argv => argv.map Prod.snd
  | .redir cmd file _ _ => cmd.ends ++ [file.2]
  | .pipe left right => left.ends ++ right.ends
  | .list left right => left.ends ++ right.ends
  | .back cmd => cmd.ends

/-- The strings of a command: every `argv[i]` and every `file` in it. -/
def strings {α : Type} : Cmd α → List α
  | .exec argv => argv
  | .redir cmd file _ _ => cmd.strings ++ [file]
  | .pipe left right | .list left right => left.strings ++ right.strings
  | .back cmd => cmd.strings

theorem ends_eq {cmd : Cmd Pointers} : cmd.ends = cmd.strings.map Prod.snd := by
  induction cmd with
  | exec argv => rfl
  | redir cmd file mode fd ih =>
    simp only [ends, strings, ih, List.map_append, map_cons, List.map_nil]
  | pipe _ _ ihl ihr | list _ _ ihl ihr => simp only [ends, strings, ihl, ihr, List.map_append]
  | back cmd ih => exact ih

theorem Rel.of_mem {α β : Type} {R : α → β → Prop} {cmd : Cmd α} {t : Cmd β} {p : α}
    (rel : Rel R cmd t) (mem : p ∈ cmd.strings) : ∃ w, R p w := by
  induction rel with
  | exec args =>
    obtain ⟨i, inside, rfl⟩ := List.getElem_of_mem mem
    exact ⟨_, args.get inside (args.length_eq ▸ inside)⟩
  | redir _ file ih =>
    rcases List.mem_append.mp mem with mem | mem
    · exact ih mem
    · obtain rfl := List.mem_singleton.mp mem
      exact ⟨_, file⟩
  | pipe _ _ ihl ihr | list _ _ ihl ihr => exact (List.mem_append.mp mem).elim ihl ihr
  | back _ ih => exact ih mem

end Cmd

section Strings

variable {line text text' text'' : List Char} {a b : List Nat} {e : Nat} {cmd : Cmd Pointers}
  {t : Tree} {p : Pointers} {w : List Char}

/-- `text'` is `text` with a NUL at each of the positions `a`. -/
def Cut (a : List Nat) (text text' : List Char) : Prop :=
  ∀ i, text'[i]? = if i ∈ a then text[i]?.map fun _ => '\x00' else text[i]?

theorem Cut.refl : Cut [] text text :=
  fun _ => (if_neg List.not_mem_nil).symm

theorem cut_set : Cut [e] text (text.set e '\x00') := by
  intro i
  rw [List.getElem?_set]
  by_cases same : e = i
  · subst same
    by_cases inside : e < text.length
    · simp [inside]
    · simp [inside]
  · have outside : i ∉ [e] := fun mem => same (List.mem_singleton.mp mem).symm
    rw [if_neg same, if_neg outside]

theorem Cut.trans (one : Cut a text text') (two : Cut b text' text'') :
    Cut (a ++ b) text text'' := by
  intro i
  rw [two i, one i]
  by_cases first : i ∈ a
  · by_cases second : i ∈ b
    · simp [first, second, Function.comp_def]
    · simp [first, second]
  · by_cases second : i ∈ b
    · simp [first, second]
    · simp [first, second]

theorem cut_foldl (argv : List Pointers) :
    Cut (argv.map Prod.snd) text (argv.foldl (fun text arg => text.set arg.2 '\x00') text) := by
  induction argv generalizing text with
  | nil => exact .refl
  | cons arg argv ih => exact cut_set.trans ih

theorem Cmd.cut_nulterminate : Cut cmd.ends text (cmd.nulterminate text) := by
  induction cmd generalizing text with
  | exec argv => exact cut_foldl argv
  | redir cmd file mode fd ih => exact ih.trans cut_set
  | pipe left right ihl ihr | list left right ihl ihr => exact ihl.trans ihr
  | back cmd ih => exact ih

theorem Span.end_stops (span : Span line p w) (at_ : (line)[p.2]? = some c) :
    wordChar c = false := by
  obtain ⟨rest, split, stops⟩ := span.text
  refine stops c ?_
  have shifted : (line.drop p.1)[w.length]? = some c := by
    rw [getElem?_drop, ← span.ends]
    exact at_
  rw [split, List.getElem?_append_right (Nat.le_refl _), Nat.sub_self] at shifted
  rw [List.head?_eq_getElem?]
  exact shifted

/-- A word is the C string at its start once the line is cut at ends of words, its own among
them. -/
theorem Span.stringAt (span : Span line p w) (clean : '\x00' ∉ line)
    (cut : Cut a line text) (own : p.2 ∈ a)
    (others : ∀ e ∈ a, ∀ c, (line)[e]? = some c → wordChar c = false) : stringAt text p.1 = w := by
  obtain ⟨rest, split, -⟩ := span.text
  have chars : ∀ i < w.length, (line)[p.1 + i]? = w[i]? := by
    intro i below
    rw [← getElem?_drop, split, List.getElem?_append_left below]
  have same : text.drop p.1 = w ++ text.drop p.2 := by
    refine List.ext_getElem? fun i => ?_
    rw [getElem?_drop]
    by_cases below : i < w.length
    · have outside : p.1 + i ∉ a := by
        intro mem
        have here : (line)[p.1 + i]? = some (w.get ⟨i, below⟩) := by
          rw [chars i below]
          exact List.getElem?_eq_getElem below
        have isWord := span.chars _ (List.get_mem w ⟨i, below⟩)
        rw [others _ mem _ here] at isWord
        cases isWord
      rw [cut, if_neg outside, chars i below, List.getElem?_append_left below]
    · have after : p.1 + i = p.2 + (i - w.length) := by
        rw [span.ends]
        omega
      rw [List.getElem?_append_right (by omega), getElem?_drop, after]
  have stop : (text.drop p.2).takeWhile (· ≠ '\x00') = [] := by
    have first : (text.drop p.2).head? = (line)[p.2]?.map fun _ => '\x00' := by
      rw [List.head?_drop, cut, if_pos own]
    cases rest : text.drop p.2 with
    | nil => rfl
    | cons c cs =>
      rw [rest, List.head?_cons] at first
      have nul : c = '\x00' := by
        cases here : (line)[p.2]? with
        | none => rw [here] at first; cases first
        | some d => rw [here] at first; exact Option.some.inj first
      rw [nul]
      rfl
  have real : ∀ c ∈ w, decide (c ≠ '\x00') = true := by
    intro c mem
    refine decide_eq_true ?_
    rintro rfl
    exact clean (List.mem_of_mem_drop (split ▸ List.mem_append_left _ mem))
  unfold Sh.stringAt
  rw [same, List.takeWhile_append_of_pos real, stop, append_nil]

theorem Cmd.Rel.ends_stop (rel : Cmd.Rel (Span line) cmd t) :
    ∀ e ∈ cmd.ends, ∀ c, (line)[e]? = some c → wordChar c = false := by
  intro e mem c at_
  obtain ⟨p, held, rfl⟩ := List.mem_map.mp (ends_eq ▸ mem)
  obtain ⟨w, span⟩ := rel.of_mem held
  exact span.end_stops at_

theorem map_stringAt {words : List (List Char)} (args : List.Forall₂ (Span line) argv words)
    (reads : ∀ p w, Span line p w → p.2 ∈ argv.map Prod.snd → stringAt text p.1 = w) :
    (argv.map fun arg => stringAt text arg.1) = words := by
  induction args with
  | nil => rfl
  | cons span _ ih =>
    have first := reads _ _ span (List.mem_cons_self ..)
    have rest := ih fun p w span own => reads p w span (List.mem_cons_of_mem _ own)
    rw [map_cons, first, rest]

theorem Cmd.Rel.read_eq (rel : Cmd.Rel (Span line) cmd t)
    (reads : ∀ p w, Span line p w → p.2 ∈ cmd.ends → stringAt text p.1 = w) :
    cmd.read text = t := by
  induction rel with
  | exec args => exact congrArg Cmd.exec (map_stringAt args reads)
  | redir _ file ih =>
    have inner := ih fun p w span own => reads p w span (List.mem_append_left _ own)
    have name := reads _ _ file (List.mem_append_right _ (List.mem_singleton_self _))
    rw [Cmd.read, inner, name]
  | pipe _ _ ihl ihr | list _ _ ihl ihr =>
    have left := ihl fun p w span own => reads p w span (List.mem_append_left _ own)
    have right := ihr fun p w span own => reads p w span (List.mem_append_right _ own)
    rw [Cmd.read, left, right]
  | back _ ih => exact congrArg Cmd.back (ih reads)

/-- **`nulterminate`** makes the pointers of a command its strings. -/
theorem Cmd.Rel.read_nulterminate (rel : Cmd.Rel (Span line) cmd t) (clean : '\x00' ∉ line) :
    cmd.read (cmd.nulterminate line) = t :=
  rel.read_eq fun _ _ span own => span.stringAt clean cut_nulterminate own rel.ends_stop

end Strings

section Result

variable {line : List Char}

theorem skip_eq_length (clean : '\x00' ∉ line) (inside : ps ≤ line.length) :
    skip line whitespace ps = line.length ↔ tokensAt line ps = [] := by
  rcases tokensAt_cases clean inside with ⟨none, at_end⟩ | ⟨c, cs, t, some, at_, -⟩
  · exact ⟨fun _ => none, fun _ => at_end⟩
  constructor
  · intro at_end
    exact absurd at_end (Nat.ne_of_lt (lt_length at_))
  · intro none
    rw [some] at none
    cases none

/-- What is derivable is what the parser over tokens settles on. -/
theorem line_iff_settles :
    Line ts t ↔ Fueled.Settles (fun fuel => lineOf fuel ts) (.ok (t, [])) := by
  constructor
  · intro derived
    have takes := derived.complete [] (fun _ none => by cases none)
    rwa [append_nil] at takes
  · rintro ⟨bound, run⟩
    obtain ⟨u, split, derived⟩ := (sound bound).1 _ _ _ (run bound (Nat.le_refl _))
    rw [append_nil] at split
    exact split ▸ derived

theorem parsecmd_error {panic : Panic} (parsed : parseline line fuel 0 = .error panic) :
    parsecmd line fuel = .error panic := by
  unfold parsecmd
  rw [parsed]
  rfl

theorem parsecmd_ok (parsed : parseline line fuel 0 = .ok (cmd, ps)) :
    parsecmd line fuel = if skip line whitespace ps ≠ line.length then .error .leftovers
      else .ok (cmd, cmd.nulterminate line) := by
  unfold parsecmd
  rw [parsed]
  rfl

/-- **The shell parser accepts exactly its grammar**: on every line without a NUL it ends; either
the tokens of the line derive a command, and it returns that one and no other is derivable, or they
derive none, and it panics. -/
theorem parsecmd_accepts (clean : '\x00' ∉ line) :
    ∃ bound, ∀ fuel, bound ≤ fuel →
      (∃ cmd text, parsecmd line fuel = .ok (cmd, text) ∧
        ∀ t, Line (tokens line) t ↔ t = cmd.read text) ∨
      (∃ panic, parsecmd line fuel = .error panic) ∧ ∀ t, ¬ Line (tokens line) t := by
  obtain ⟨r, ends, settles⟩ : Fueled.Ends fun fuel => lineOf fuel (tokens line) := lineOf_ends
  have only : ∀ t, Line (tokens line) t ↔ r = .ok (t, []) := by
    intro t
    rw [line_iff_settles]
    exact ⟨fun derived => settles.unique derived, fun same => same ▸ settles⟩
  obtain ⟨bound, run⟩ := settles
  refine ⟨bound, ?_⟩
  intro fuel enough
  have course : Fueled.Rel (Agree line) (parseline line fuel 0) (lineOf fuel (tokens line)) :=
    (parse_agrees clean fuel).1 0 (Nat.zero_le _)
  have result : lineOf fuel (tokens line) = r := run fuel enough
  rw [result] at course
  cases parsed : parseline line fuel 0 with
  | out =>
    rw [parsed] at course
    cases course
    exact absurd rfl ends
  | error panic =>
    rw [parsed] at course
    cases course
    refine .inr ⟨⟨panic, parsecmd_error parsed⟩, ?_⟩
    intro t derived
    cases (only t).mp derived
  | ok found =>
    obtain ⟨cmd, ps⟩ := found
    rw [parsed] at course
    obtain ⟨⟨t, v⟩, same, rel, inside, rest⟩ : ∃ y, r = .ok y ∧ Agree line (cmd, ps) y := by
      cases course with
      | ok agree => exact ⟨_, rfl, agree⟩
    dsimp only at rel inside rest
    rw [parsecmd_ok parsed]
    by_cases used : tokensAt line ps = []
    · have all : ¬ skip line whitespace ps ≠ line.length :=
        not_not_intro ((skip_eq_length clean inside).mpr used)
      refine .inl ⟨cmd, cmd.nulterminate line, if_neg all, ?_⟩
      intro u
      rw [only, same, rest, used, rel.read_nulterminate clean]
      constructor
      · intro equal
        cases equal
        rfl
      · rintro rfl
        rfl
    · have left : skip line whitespace ps ≠ line.length :=
        fun all => used ((skip_eq_length clean inside).mp all)
      refine .inr ⟨⟨.leftovers, if_pos left⟩, ?_⟩
      intro u derived
      have equal := (only u).mp derived
      rw [same, rest] at equal
      exact used (Prod.mk.inj (Fueled.ok.inj equal)).2

/-- A line with a block, a pipe and redirections is accepted, with this tree. -/
theorem parsecmd_accepts_block :
    let line := "ls | (cat < f; echo a >> g &) > h".toList
    ∃ bound, ∀ fuel, bound ≤ fuel → ∃ cmd text, parsecmd line fuel = .ok (cmd, text) ∧
      cmd.read text = .pipe (.exec ["ls".toList]) (.redir (.list
        (.redir (.exec ["cat".toList]) "f".toList O_RDONLY 0)
        (.back (.redir (.exec ["echo".toList, "a".toList]) "g".toList (O_WRONLY ||| O_CREATE) 1)))
        "h".toList (O_WRONLY ||| O_CREATE ||| O_TRUNC) 1) := by
  intro line
  have lexed : tokens line = [.word "ls".toList, .bar, .lparen, .word "cat".toList, .less,
      .word "f".toList, .semi, .word "echo".toList, .word "a".toList, .append, .word "g".toList,
      .amp, .rparen, .great, .word "h".toList] := by decide +kernel
  obtain ⟨u, split, derived⟩ := (sound 20).1 (tokens line) _ [] (by rw [lexed]; rfl)
  rw [append_nil] at split
  rw [← split] at derived
  obtain ⟨bound, parses⟩ := parsecmd_accepts (show '\x00' ∉ line by decide)
  refine ⟨bound, fun fuel enough => ?_⟩
  rcases parses fuel enough with ⟨cmd, text, run, only⟩ | ⟨-, none⟩
  · exact ⟨cmd, text, run, ((only _).mp derived).symm⟩
  · exact absurd derived (none _)

/-- **`nulterminate` recovers the words**: for a line that the parser accepts, the pointers of
every string of the command are those of a word that `gettoken` found, and the C string at the
first is what the line had between them. -/
theorem nulterminate_recovers (clean : '\x00' ∉ line) {fuel : Nat} {cmd : Cmd Pointers}
    {text : List Char} (run : parsecmd line fuel = .ok (cmd, text)) :
    ∀ p ∈ cmd.strings,
      (∃ ps, (gettoken line ps).ret = 'a' ∧ p = ((gettoken line ps).q, (gettoken line ps).eq)) ∧
      stringAt text p.1 = (line.drop p.1).take (p.2 - p.1) := by
  have course := (parse_agrees clean fuel).1 0 (Nat.zero_le _)
  cases parsed : parseline line fuel 0 with
  | out => rw [parsecmd, parsed] at run; cases run
  | error panic => rw [parsecmd_error parsed] at run; cases run
  | ok found =>
    rw [parsed] at course
    rw [parsecmd_ok parsed] at run
    split at run
    · cases run
    cases run
    intro p mem
    generalize lineOf fuel (tokensAt line 0) = y at course
    cases course with
    | ok agree =>
    obtain ⟨w, span⟩ := agree.1.of_mem mem
    obtain ⟨rest, split, -⟩ := span.text
    have own : p.2 ∈ found.1.ends := Cmd.ends_eq ▸ List.mem_map_of_mem mem
    refine ⟨span.scan, (span.stringAt clean Cmd.cut_nulterminate own agree.1.ends_stop).trans ?_⟩
    rw [split, span.ends, Nat.add_sub_cancel_left, List.take_left]

/-- Words that abut their delimiters. -/
theorem nulterminate_recovers_abutting :
    ∃ cmd text, parsecmd "a>b|(c&)".toList 20 = .ok (cmd, text) ∧
      cmd.strings = [(0, 1), (2, 3), (5, 6)] ∧
      ∀ p ∈ cmd.strings, stringAt text p.1 = ("a>b|(c&)".toList.drop p.1).take (p.2 - p.1) := by
  obtain ⟨cmd, text, run, strings⟩ : ∃ cmd text, parsecmd "a>b|(c&)".toList 20 = .ok (cmd, text) ∧
      cmd.strings = [(0, 1), (2, 3), (5, 6)] := ⟨_, _, rfl, rfl⟩
  exact ⟨cmd, text, run, strings, fun p mem => (nulterminate_recovers (by decide) run p mem).2⟩

end Result

end Sh
