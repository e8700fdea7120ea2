import Mathlib.Data.List.Induction
import Xv6.Sh.Grammar

/-!
# Recursive descent over tokens

The parsing procedures on a list of tokens instead of a line of characters. `lineOf` is sound and
complete for the grammar, and it ends on every list of tokens. For completeness, each procedure is
told what may follow: it takes exactly the tokens of the derivation and leaves the others.
-/

namespace Sh

open List (append_assoc append_nil cons_append length_append length_cons mem_cons not_mem_nil)

/-- The result of the parser: a command and the tokens after it. -/
abbrev Derived : Type := Fueled Panic (Tree × List Token)

/-- `parseredirs`. -/
def redirsOf : Nat → Tree → List Token → Derived
  | 0, _, _ => .out
  | fuel + 1, cmd, ts =>
    match ts with
    | [] => .ok (cmd, [])
    | op :: rest =>
      match op.redirect with
      | none => .ok (cmd, op :: rest)
      | some (mode, fd) =>
        match rest with
        | .word file :: rest => redirsOf fuel (.redir cmd file mode fd) rest
        | _ => .error .missingFile

/-- The loop of `parseexec` over the arguments. -/
def argsOf : Nat → Tree → Nat → List Token → Derived
  | 0, _, _, _ => .out
  | fuel + 1, cmd, argc, ts =>
    match ts with
    | [] => .ok (cmd, [])
    | .word w :: rest =>
      if argc + 1 ≥ MAXARGS then .error .tooManyArgs
      else do
        let (cmd, rest) ← redirsOf fuel (cmd.addArg w) rest
        argsOf fuel cmd (argc + 1) rest
    | t :: rest =>
      if t ∈ [.bar, .rparen, .amp, .semi] then .ok (cmd, t :: rest) else .error .unexpected

/-- The `while` loop of `parseline`. -/
def backsOf : Nat → Tree → List Token → Derived
  | 0, _, _ => .out
  | fuel + 1, cmd, ts =>
    match ts with
    | .amp :: rest => backsOf fuel (.back cmd) rest
    | ts => .ok (cmd, ts)

mutual

/-- `parseline`. -/
def lineOf : Nat → List Token → Derived
  | 0, _ => .out
  | fuel + 1, ts => do
      let (cmd, ts) ← pipeOf fuel ts
      let (cmd, ts) ← backsOf fuel cmd ts
      match ts with
      | .semi :: rest => do
          let (right, rest) ← lineOf fuel rest
          .ok (.list cmd right, rest)
      | ts => .ok (cmd, ts)

/-- `parsepipe`. -/
def pipeOf : Nat → List Token → Derived
  | 0, _ => .out
  | fuel + 1, ts => do
      let (cmd, ts) ← execOf fuel ts
      match ts with
      | .bar :: rest => do
          let (right, rest) ← pipeOf fuel rest
          .ok (.pipe cmd right, rest)
      | ts => .ok (cmd, ts)

/-- `parseexec`. -/
def execOf : Nat → List Token → Derived
  | 0, _ => .out
  | fuel + 1, ts =>
    match ts with
    | .lparen :: rest => blockOf fuel rest
    | ts => do
        let (cmd, ts) ← redirsOf fuel (.exec []) ts
        argsOf fuel cmd 0 ts

/-- A block, after its opening parenthesis. -/
def blockOf : Nat → List Token → Derived
  | 0, _ => .out
  | fuel + 1, ts => do
      let (cmd, ts) ← lineOf fuel ts
      match ts with
      | .rparen :: rest => redirsOf fuel cmd rest
      | _ => .error .missingParen

end

/-! ## Soundness -/

section Sound

variable {cmd t : Tree} {fuel argc : Nat} {ts v : List Token}

namespace Cmd

theorem wrap_append : cmd.wrap (rs ++ rs') = (cmd.wrap rs).wrap rs' :=
  List.foldl_append

theorem addArg_wrap : (wrap (.exec ws) rs).addArg w = wrap (.exec (ws ++ [w])) rs := by
  induction rs using List.reverseRecOn with
  | nil => rfl
  | append_singleton rs r ih =>
    rw [wrap_append, wrap_append, ← ih]
    rfl

end Cmd

theorem redirsOf_sound (run : redirsOf fuel cmd ts = .ok (t, v)) :
    ∃ u rs, ts = u ++ v ∧ Redirs u rs ∧ t = cmd.wrap rs := by
  induction fuel generalizing cmd ts with
  | zero => cases run
  | succ fuel ih =>
    cases ts with
    | nil =>
      cases run
      exact ⟨[], [], rfl, .nil, rfl⟩
    | cons op rest =>
      unfold redirsOf at run
      dsimp only at run
      split at run
      · cases run
        exact ⟨[], [], rfl, .nil, rfl⟩
      rename_i mode fd isOp
      split at run
      · next file rest =>
        obtain ⟨u, rs, rfl, derived, rfl⟩ := ih run
        exact ⟨_, _, rfl, .cons isOp derived, rfl⟩
      · cases run

theorem argsOf_sound (few : argc < MAXARGS)
    (run : argsOf fuel (Cmd.wrap (.exec ws) rs) argc ts = .ok (t, v)) :
    ∃ u ws' rs', ts = u ++ v ∧ Args u ws' rs' ∧ argc + ws'.length < MAXARGS ∧
      t = Cmd.wrap (.exec (ws ++ ws')) (rs ++ rs') := by
  induction fuel generalizing argc ws rs ts with
  | zero => cases run
  | succ fuel ih =>
    have done : ∀ v : List Token, ∃ u ws' rs', v = u ++ v ∧ Args u ws' rs' ∧
        argc + ws'.length < MAXARGS ∧
        Cmd.wrap (.exec ws) rs = Cmd.wrap (.exec (ws ++ ws')) (rs ++ rs') := by
      intro v
      exact ⟨[], [], [], rfl, .nil, few, by rw [append_nil, append_nil]⟩
    unfold argsOf at run
    split at run
    · cases run
      exact done []
    · next w rest =>
      split at run
      · cases run
      obtain ⟨⟨cmd, rest'⟩, redirs, run⟩ := Fueled.bind_eq_ok.mp run
      rw [Cmd.addArg_wrap] at redirs
      obtain ⟨u, rs', rfl, derived, rfl⟩ := redirsOf_sound redirs
      rw [← Cmd.wrap_append] at run
      obtain ⟨u', ws', rs'', rfl, args, count, rfl⟩ := ih (by omega) run
      refine ⟨.word w :: (u ++ u'), w :: ws', rs' ++ rs'', ?_, .cons derived args, ?_, ?_⟩
      · rw [cons_append, append_assoc]
      · rw [length_cons]
        omega
      · rw [append_assoc, append_assoc, List.singleton_append]
    · split at run <;> cases run
      exact done _

theorem backsOf_sound (run : backsOf fuel cmd ts = .ok (t, v)) :
    ∃ n, ts = List.replicate n .amp ++ v ∧ t = cmd.backs n := by
  induction fuel generalizing cmd ts with
  | zero => cases run
  | succ fuel ih =>
    unfold backsOf at run
    split at run
    · obtain ⟨n, rfl, rfl⟩ := ih run
      exact ⟨n + 1, rfl, rfl⟩
    · cases run
      exact ⟨0, rfl, rfl⟩

/-- **What the procedures take is derivable**, by induction on the fuel. -/
theorem sound (fuel : Nat) :
    (∀ ts t v, lineOf fuel ts = .ok (t, v) → ∃ u, ts = u ++ v ∧ Line u t) ∧
    (∀ ts t v, pipeOf fuel ts = .ok (t, v) → ∃ u, ts = u ++ v ∧ Pipe u t) ∧
    (∀ ts t v, execOf fuel ts = .ok (t, v) → ∃ u, ts = u ++ v ∧ Exec u t) ∧
    ∀ ts t v, blockOf fuel ts = .ok (t, v) → ∃ u, .lparen :: ts = u ++ v ∧ Exec u t := by
  induction fuel with
  | zero =>
    refine ⟨?_, ?_, ?_, ?_⟩ <;> exact fun _ _ _ run => by cases run
  | succ fuel ih =>
    obtain ⟨line, pipe, exec, block⟩ := ih
    refine ⟨?_, ?_, ?_, ?_⟩
    · intro ts t v run
      obtain ⟨⟨cmd, ts'⟩, first, after⟩ := Fueled.bind_eq_ok.mp run
      obtain ⟨⟨cmd', ts''⟩, backs, after⟩ := Fueled.bind_eq_ok.mp after
      obtain ⟨u, rfl, derived⟩ := pipe _ _ _ first
      obtain ⟨n, rfl, rfl⟩ := backsOf_sound backs
      dsimp only at after
      split at after
      · next rest =>
        obtain ⟨⟨right, rest'⟩, later, done⟩ := Fueled.bind_eq_ok.mp after
        cases done
        obtain ⟨u', rfl, derived'⟩ := line _ _ _ later
        refine ⟨u ++ (List.replicate n .amp ++ .semi :: u'), ?_, .more n derived derived'⟩
        simp only [append_assoc, cons_append]
      · cases after
        refine ⟨u ++ List.replicate n .amp, ?_, .last n derived⟩
        rw [append_assoc]
    · intro ts t v run
      obtain ⟨⟨cmd, ts'⟩, first, after⟩ := Fueled.bind_eq_ok.mp run
      obtain ⟨u, rfl, derived⟩ := exec _ _ _ first
      dsimp only at after
      split at after
      · next rest =>
        obtain ⟨⟨right, rest'⟩, later, done⟩ := Fueled.bind_eq_ok.mp after
        cases done
        obtain ⟨u', rfl, derived'⟩ := pipe _ _ _ later
        refine ⟨u ++ .bar :: u', ?_, .more derived derived'⟩
        rw [append_assoc, cons_append]
      · cases after
        exact ⟨u, rfl, .last derived⟩
    · intro ts t v run
      unfold execOf at run
      split at run
      · exact block _ _ _ run
      obtain ⟨⟨cmd, ts'⟩, redirs, run⟩ := Fueled.bind_eq_ok.mp run
      obtain ⟨u, rs, rfl, derived, rfl⟩ := redirsOf_sound redirs
      obtain ⟨u', ws, rs', rfl, args, count, rfl⟩ := argsOf_sound (by decide) run
      have few : ws.length < MAXARGS := by omega
      refine ⟨u ++ u', ?_, .simple derived args few⟩
      rw [append_assoc]
    · intro ts t v run
      obtain ⟨⟨cmd, ts'⟩, first, after⟩ := Fueled.bind_eq_ok.mp run
      obtain ⟨u, rfl, derived⟩ := line _ _ _ first
      dsimp only at after
      split at after
      · obtain ⟨u', rs, rfl, redirs, rfl⟩ := redirsOf_sound after
        refine ⟨.lparen :: (u ++ .rparen :: u'), ?_, .block derived redirs⟩
        simp only [append_assoc, cons_append]
      · cases after

end Sound

/-! ## Completeness -/

section Complete

variable {cmd t : Tree} {argc : Nat} {ts u v : List Token} {ws ws' : List (List Char)}
  {rs rs' : List Redirect}

/-- What may follow an `exec`, a `pipe` and a `line`. -/
def FollowsExec (v : List Token) : Prop :=
  ∀ t ∈ v.head?, t ∈ [Token.bar, .rparen, .amp, .semi]

/-- What may follow a pipeline. -/
def FollowsPipe (v : List Token) : Prop :=
  ∀ t ∈ v.head?, t ∈ [Token.rparen, .amp, .semi]

/-- What may follow a line: nothing, or a closing parenthesis. -/
def FollowsLine (v : List Token) : Prop :=
  ∀ t ∈ v.head?, t = Token.rparen

theorem FollowsExec.no_redirect (follows : FollowsExec v) : ∀ t ∈ v.head?, t.redirect = none := by
  intro t first
  have stop := follows t first
  simp only [mem_cons, not_mem_nil, or_false] at stop
  rcases stop with rfl | rfl | rfl | rfl
  all_goals rfl

theorem redirsOf_complete (derived : Redirs u rs) (stop : ∀ t ∈ v.head?, t.redirect = none) :
    Fueled.Settles (fun fuel => redirsOf fuel cmd (u ++ v)) (.ok (cmd.wrap rs, v)) := by
  induction derived generalizing cmd with
  | nil =>
    refine .succ ?_
    cases v with
    | nil => exact .const
    | cons t v =>
      have none := stop t rfl
      simp only [List.nil_append, redirsOf, none]
      exact .const
  | cons isOp derived ih =>
    refine .succ ?_
    simp only [cons_append, redirsOf, isOp]
    exact ih

theorem Args.head (args : Args u ws rs) (follows : FollowsExec v) :
    ∀ t ∈ (u ++ v).head?, t.redirect = none ∧ t ≠ .lparen := by
  intro t first
  cases args with
  | nil =>
    have stop := follows t first
    simp only [mem_cons, not_mem_nil, or_false] at stop
    rcases stop with rfl | rfl | rfl | rfl
    all_goals exact ⟨rfl, by decide⟩
  | cons =>
    cases first
    exact ⟨rfl, by simp⟩

theorem Redirs.head (redirs : Redirs u rs) (rest : ∀ t ∈ v.head?, t ≠ .lparen) :
    ∀ t ∈ (u ++ v).head?, t ≠ .lparen := by
  cases redirs with
  | nil => exact rest
  | cons isOp =>
    rintro t ⟨⟩ rfl
    cases isOp

/-- All arguments are taken, as long as there are fewer than `MAXARGS`. -/
theorem argsOf_complete (ws : List (List Char)) (rs : List Redirect) (derived : Args u ws' rs')
    (follows : FollowsExec v) (few : argc + ws'.length < MAXARGS) :
    Fueled.Settles (fun fuel => argsOf fuel (Cmd.wrap (.exec ws) rs) argc (u ++ v))
      (.ok (Cmd.wrap (.exec (ws ++ ws')) (rs ++ rs'), v)) := by
  induction derived generalizing argc ws rs with
  | nil =>
    refine .succ ?_
    rw [append_nil, append_nil, List.nil_append]
    cases v with
    | nil => exact .const
    | cons t v =>
      have stop := follows t rfl
      simp only [mem_cons, not_mem_nil, or_false] at stop
      rcases stop with rfl | rfl | rfl | rfl
      all_goals exact .const
  | @cons w ts us ws1 rs1 rs2 redirs args ih =>
    refine .succ ?_
    rw [length_cons] at few
    simp only [cons_append, argsOf, if_neg (show ¬ argc + 1 ≥ MAXARGS by omega),
      Cmd.addArg_wrap, append_assoc]
    have stop := args.head follows
    refine (redirsOf_complete redirs fun t first => (stop t first).1).bind_ok ?_
    rw [← Cmd.wrap_append]
    have few : argc + 1 + ws1.length < MAXARGS := by omega
    have rest := ih (ws ++ [w]) (rs ++ rs1) few
    simpa only [append_assoc, List.singleton_append] using rest

theorem backsOf_complete (stop : ∀ t ∈ v.head?, t ≠ .amp) :
    Fueled.Settles (fun fuel => backsOf fuel cmd (List.replicate n .amp ++ v))
      (.ok (cmd.backs n, v)) := by
  induction n generalizing cmd with
  | zero =>
    refine .succ ?_
    cases v with
    | nil => exact .const
    | cons t v =>
      have ne := stop t rfl
      cases t with
      | amp => exact absurd rfl ne
      | _ => exact .const
  | succ n ih =>
    refine .succ ?_
    exact ih

theorem follows_semi (us : List Token) : FollowsPipe (.semi :: us) := by
  rintro t ⟨⟩
  decide

theorem follows_bar (us : List Token) : FollowsExec (.bar :: us) := by
  rintro t ⟨⟩
  decide

theorem FollowsPipe.exec (follows : FollowsPipe v) : FollowsExec v :=
  fun t first => List.mem_cons_of_mem _ (follows t first)

theorem FollowsLine.pipe (follows : FollowsLine v) : FollowsPipe v := by
  intro t first
  rw [follows t first]
  decide

theorem FollowsPipe.amps (follows : FollowsPipe v) (n : Nat) :
    FollowsPipe (List.replicate n .amp ++ v) := by
  cases n with
  | zero => exact follows
  | succ n =>
    rintro t ⟨⟩
    decide

theorem execOf_simple (simple : ∀ t ∈ ts.head?, t ≠ .lparen) :
    execOf (fuel + 1) ts = redirsOf fuel (.exec []) ts >>= fun x => argsOf fuel x.1 0 x.2 := by
  cases ts with
  | nil => rfl
  | cons t ts =>
    have ne := simple t rfl
    cases t with
    | lparen => exact absurd rfl ne
    | _ => rfl

/-- The parser `p` takes exactly the tokens `u` and returns `t`, whatever admissible tokens
follow. -/
def Takes (p : Nat → List Token → Derived) (Follows : List Token → Prop) (u : List Token)
    (t : Tree) : Prop :=
  ∀ v, Follows v → Fueled.Settles (fun fuel => p fuel (u ++ v)) (.ok (t, v))

/-- **Completeness**: the parser takes exactly the tokens of a derivation. -/
theorem Line.complete (derived : Line u t) : Takes lineOf FollowsLine u t := by
  refine @Line.rec (fun u t _ => Takes lineOf FollowsLine u t)
    (fun u t _ => Takes pipeOf FollowsPipe u t) (fun u t _ => Takes execOf FollowsExec u t)
    ?_ ?_ ?_ ?_ ?_ ?_ _ _ derived
  · -- `pipe '&'*`
    intro ts t n _ pipe v follows
    refine .succ ?_
    simp only [lineOf, append_assoc]
    refine (pipe _ (follows.pipe.amps n)).bind_ok ?_
    refine (backsOf_complete ?_).bind_ok ?_
    · rintro t first rfl
      cases follows _ first
    cases v with
    | nil => exact .const
    | cons t v =>
      obtain rfl := follows t rfl
      exact .const
  · -- `pipe '&'* ';' line`
    intro ts us t u n _ _ pipe line v follows
    refine .succ ?_
    simp only [lineOf, append_assoc, cons_append]
    refine (pipe _ ((follows_semi (us ++ v)).amps n)).bind_ok ?_
    refine (backsOf_complete ?_).bind_ok ?_
    · rintro t ⟨⟩
      decide
    · exact (line v follows).bind_ok .const
  · -- `exec`
    intro ts t _ exec v follows
    refine .succ ?_
    refine (exec v follows.exec).bind_ok ?_
    cases v with
    | nil => exact .const
    | cons t v =>
      have stop := follows t rfl
      simp only [mem_cons, not_mem_nil, or_false] at stop
      rcases stop with rfl | rfl | rfl
      all_goals exact .const
  · -- `exec '|' pipe`
    intro ts us t u _ _ exec pipe v follows
    refine .succ ?_
    simp only [pipeOf, append_assoc, cons_append]
    refine (exec _ (follows_bar _)).bind_ok ?_
    exact (pipe v follows).bind_ok .const
  · -- `'(' line ')' redir*`
    intro ts us t rs _ redirs line v follows
    have close : FollowsLine (.rparen :: (us ++ v)) := by
      rintro t ⟨⟩
      rfl
    have block : Fueled.Settles (fun fuel => blockOf fuel (ts ++ .rparen :: (us ++ v)))
        (.ok (t.wrap rs, v)) := by
      refine .succ ?_
      refine (line _ close).bind_ok ?_
      exact redirsOf_complete redirs follows.no_redirect
    refine .succ ?_
    simp only [execOf, append_assoc, cons_append]
    exact block
  · -- `redir* (word redir*)*`
    intro ts us ws rs rs' redirs args few v follows
    have stop := args.head follows
    have simple := redirs.head fun t first => (stop t first).2
    refine .succ ?_
    rw [append_assoc]
    simp only [execOf_simple simple]
    refine (redirsOf_complete redirs fun t first => (stop t first).1).bind_ok ?_
    exact argsOf_complete [] _ args follows (by omega)

end Complete

/-! ## The parser ends -/

section Ends

variable {cmd : Tree} {argc : Nat} {ts : List Token}

open Fueled

theorem redirsOf_ends : Ends fun fuel => redirsOf fuel cmd ts := by
  induction n : ts.length using Nat.strongRecOn generalizing cmd ts with
  | _ n ih =>
    refine .succ ?_
    cases ts with
    | nil => exact .ok
    | cons op rest =>
      simp only [redirsOf]
      cases op.redirect with
      | none => exact .ok
      | some how =>
        cases rest with
        | nil => exact .error
        | cons t rest =>
          cases t with
          | word file =>
            refine ih rest.length ?_ rfl
            rw [← n, length_cons, length_cons]
            omega
          | _ => exact .error

theorem argsOf_ends : Ends fun fuel => argsOf fuel cmd argc ts := by
  induction n : ts.length using Nat.strongRecOn generalizing cmd argc ts with
  | _ n ih =>
    refine .succ ?_
    cases ts with
    | nil => exact .ok
    | cons t rest =>
      cases t with
      | word w =>
        simp only [argsOf]
        by_cases many : argc + 1 ≥ MAXARGS
        · simp only [if_pos many]
          exact .error
        simp only [if_neg many]
        refine redirsOf_ends.bind ?_
        rintro ⟨cmd', rest'⟩ ⟨bound, run⟩
        obtain ⟨u, -, split, -⟩ := redirsOf_sound (run bound (Nat.le_refl _))
        refine ih rest'.length ?_ rfl
        rw [← n, length_cons, split, length_append]
        omega
      | bar | rparen | amp | semi => exact .ok
      | _ => exact .error

theorem backsOf_ends : Ends fun fuel => backsOf fuel cmd ts := by
  induction ts generalizing cmd with
  | nil => exact .succ .ok
  | cons t ts ih =>
    refine .succ ?_
    cases t with
    | amp => exact ih
    | _ => exact .ok

theorem execOf_ends (shorter : ∀ us, us.length < ts.length → Ends fun fuel => lineOf fuel us) :
    Ends fun fuel => execOf fuel ts := by
  by_cases block : ∃ rest, ts = .lparen :: rest
  · obtain ⟨rest, rfl⟩ := block
    have line := shorter rest (Nat.lt_succ_self _)
    refine .succ (.succ (line.bind ?_))
    rintro ⟨cmd, rest'⟩ -
    cases rest' with
    | nil => exact .error
    | cons t rest' =>
      cases t with
      | rparen => exact redirsOf_ends
      | _ => exact .error
  · have simple : ∀ t ∈ ts.head?, t ≠ .lparen := by
      rintro t first rfl
      obtain ⟨rest, rfl⟩ := List.head?_eq_some_iff.mp first
      exact block ⟨rest, rfl⟩
    refine .succ ?_
    simp only [execOf_simple simple]
    exact redirsOf_ends.bind fun _ _ => argsOf_ends

theorem pipeOf_ends (shorter : ∀ us, us.length < ts.length → Ends fun fuel => lineOf fuel us) :
    Ends fun fuel => pipeOf fuel ts := by
  induction n : ts.length using Nat.strongRecOn generalizing ts with
  | _ n ih =>
    refine .succ ((execOf_ends shorter).bind ?_)
    rintro ⟨cmd, rest⟩ ⟨bound, run⟩
    obtain ⟨u, split, -⟩ := (sound bound).2.2.1 _ _ _ (run bound (Nat.le_refl _))
    cases rest with
    | nil => exact .ok
    | cons t rest =>
      cases t with
      | bar =>
        have less : rest.length < ts.length := by
          rw [split, length_append, length_cons]
          omega
        have later : Ends fun fuel => pipeOf fuel rest :=
          ih rest.length (n ▸ less) (fun us lt => shorter us (Nat.lt_trans lt less)) rfl
        exact later.bind fun _ _ => .ok
      | _ => exact .ok

/-- **The parser ends on every list of tokens.** -/
theorem lineOf_ends : Ends fun fuel => lineOf fuel ts := by
  induction n : ts.length using Nat.strongRecOn generalizing ts with
  | _ n ih =>
    have shorter : ∀ us, us.length < ts.length → Ends fun fuel => lineOf fuel us :=
      fun us less => ih us.length (n ▸ less) rfl
    refine .succ ((pipeOf_ends shorter).bind ?_)
    rintro ⟨cmd, rest⟩ ⟨bound, run⟩
    obtain ⟨u, split, -⟩ := (sound bound).2.1 _ _ _ (run bound (Nat.le_refl _))
    refine backsOf_ends.bind ?_
    rintro ⟨cmd', rest'⟩ ⟨bound', run'⟩
    obtain ⟨k, split', -⟩ := backsOf_sound (run' bound' (Nat.le_refl _))
    cases rest' with
    | nil => exact .ok
    | cons t rest' =>
      cases t with
      | semi =>
        have less : rest'.length < ts.length := by
          rw [split, length_append, split', length_append, length_cons]
          omega
        exact (shorter rest' less).bind fun _ _ => .ok
      | _ => exact .ok

end Ends

end Sh
