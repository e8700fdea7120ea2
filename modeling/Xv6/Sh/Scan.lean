import Xv6.Sh.Grammar

/-!
# Scanning a line

What `gettoken` and `peek` do at a cursor, in terms of the tokens from there on: `tokensAt`. A call
of `peek` looks at the first of them, and a call of `gettoken` takes it; both skip the whitespace
before it.
-/

namespace Sh

/-- The string between two pointers that `gettoken` records: a word of the line that ends where a
word must end. -/
structure Span (line : List Char) (p : Pointers) (w : List Char) : Prop where
  scan : ∃ ps, (gettoken line ps).ret = 'a' ∧ p = ((gettoken line ps).q, (gettoken line ps).eq)
  text : ∃ rest, line.drop p.1 = w ++ rest ∧ ∀ c ∈ rest.head?, wordChar c = false
  ends : p.2 = p.1 + w.length
  chars : ∀ c ∈ w, wordChar c = true

/-- What `gettoken` returns for a token. -/
def Token.code : Token → Char
  | .word _ => 'a'
  | .less => '<'
  | .great => '>'
  | .append => '+'
  | .bar => '|'
  | .lparen => '('
  | .rparen => ')'
  | .semi => ';'
  | .amp => '&'

theorem Token.code_ne_nul (t : Token) : t.code ≠ '\x00' := by
  cases t with
  | word w => exact (by decide : 'a' ≠ '\x00')
  | _ => decide

/-- The character that `peek` sees of a token, unless it is a word. -/
def Token.first : Token → Option Char
  | .word _ => none
  | .append => some '>'
  | t => some t.code

section Skip

variable {line : List Char} {p : Char → Bool} {s : Nat}

theorem drop_takeWhile (l : List Char) : l.drop (l.takeWhile p).length = l.dropWhile p := by
  induction l with
  | nil => rfl
  | cons c l ih =>
    by_cases passes : p c
    · rw [List.takeWhile_cons_of_pos passes, List.dropWhile_cons_of_pos passes]
      exact ih
    · rw [List.takeWhile_cons_of_neg passes, List.dropWhile_cons_of_neg passes]
      rfl

theorem drop_skip : line.drop (skip line p s) = (line.drop s).dropWhile p := by
  unfold skip
  rw [← List.drop_drop, drop_takeWhile]

theorem le_skip : s ≤ skip line p s :=
  Nat.le_add_right ..

theorem skip_le (inside : s ≤ line.length) : skip line p s ≤ line.length := by
  have short : ((line.drop s).takeWhile p).length ≤ (line.drop s).length :=
    (List.takeWhile_sublist p).length_le
  rw [List.length_drop] at short
  unfold skip
  omega

theorem drop_skip_cases :
    line.drop (skip line p s) = [] ∨
      ∃ c cs, line.drop (skip line p s) = c :: cs ∧ p c = false := by
  rw [drop_skip]
  cases rest : (line.drop s).dropWhile p with
  | nil => exact .inl rfl
  | cons c cs =>
    refine .inr ⟨c, cs, rfl, ?_⟩
    have first := List.head?_dropWhile_not p (line.drop s)
    rw [rest] at first
    simpa using first

theorem skip_of_cons (at_ : line.drop s = c :: cs) (stops : p c = false) : skip line p s = s := by
  unfold skip
  rw [at_, List.takeWhile_cons_of_neg (by simp [stops])]
  rfl

theorem lt_skip (at_ : line.drop s = c :: cs) (passes : p c) : s < skip line p s := by
  unfold skip
  rw [at_, List.takeWhile_cons_of_pos passes, List.length_cons]
  omega

theorem lt_length (at_ : line.drop s = c :: cs) : s < line.length := by
  have length := congrArg List.length at_
  rw [List.length_drop, List.length_cons] at length
  omega

theorem skip_of_nil (at_ : line.drop s = []) : skip line p s = s := by
  unfold skip
  rw [at_]
  rfl

theorem skip_skip : skip line p (skip line p s) = skip line p s := by
  have next : line.drop (skip line p s) = [] ∨
      ∃ c cs, line.drop (skip line p s) = c :: cs ∧ p c = false := drop_skip_cases
  rcases next with at_end | ⟨c, cs, at_, stops⟩
  · exact skip_of_nil at_end
  · exact skip_of_cons at_ stops

theorem deref_eq : deref line s = (line.drop s).headD '\x00' := by
  unfold deref
  rw [List.getD_eq_getElem?_getD, List.headD_eq_head?_getD, List.head?_drop]

end Skip

/-! ## `gettoken` -/

section GetToken

variable {line : List Char} {ps : Nat} {c : Char} {cs : List Char}

theorem gettoken_skip : gettoken line (skip line whitespace ps) = gettoken line ps := by
  unfold gettoken
  rw [skip_skip]

theorem gettoken_nil (at_end : line.drop (skip line whitespace ps) = []) :
    (gettoken line ps).ret = '\x00' ∧ (gettoken line ps).ps = skip line whitespace ps := by
  have nul : deref line (skip line whitespace ps) = '\x00' := by
    rw [deref_eq, at_end]
    rfl
  unfold gettoken
  dsimp only
  rw [if_pos nul]
  exact ⟨rfl, skip_of_nil at_end⟩

/-- A call of `gettoken` finds the token `t`, which starts with `c`. -/
structure Found (line : List Char) (ps : Nat) (c : Char) (t : Token) : Prop where
  token : (gettoken line ps).token line = t
  ret : (gettoken line ps).ret = t.code
  later : ps < (gettoken line ps).ps
  inside : (gettoken line ps).ps ≤ line.length
  first : t.first = some c ∨ ∃ w, t = .word w ∧ wordChar c ∧
    Span line ((gettoken line ps).q, (gettoken line ps).eq) w

theorem found_symbol (pos : 0 < n)
    (inside : skip line whitespace ps + n ≤ line.length) (first : t.first = some c)
    (scan : gettoken line ps = ⟨t.code, skip line whitespace ps, skip line whitespace ps + n,
      skip line whitespace (skip line whitespace ps + n)⟩) : Found line ps c t := by
  have before : ps ≤ skip line whitespace ps := le_skip
  have after : skip line whitespace ps + n ≤ skip line whitespace (skip line whitespace ps + n) :=
    le_skip
  refine ⟨?_, ?_, ?_, ?_, .inl first⟩
  · rw [scan]
    cases t with
    | word w => cases first
    | _ => rfl
  · rw [scan]
  · rw [scan]
    dsimp only
    omega
  · rw [scan]
    exact skip_le inside

theorem found_word (at_ : line.drop (skip line whitespace ps) = c :: cs) (isWord : wordChar c)
    (scan : gettoken line ps = ⟨'a', skip line whitespace ps,
      skip line wordChar (skip line whitespace ps),
      skip line whitespace (skip line wordChar (skip line whitespace ps))⟩) :
    Found line ps c (.word ((line.drop (skip line whitespace ps)).takeWhile wordChar)) := by
  have before : ps ≤ skip line whitespace ps := le_skip
  have after : skip line wordChar (skip line whitespace ps) ≤
      skip line whitespace (skip line wordChar (skip line whitespace ps)) := le_skip
  have long : skip line whitespace ps < skip line wordChar (skip line whitespace ps) :=
    lt_skip at_ isWord
  have span : Span line (skip line whitespace ps, skip line wordChar (skip line whitespace ps))
      ((line.drop (skip line whitespace ps)).takeWhile wordChar) := by
    refine ⟨⟨ps, ?_⟩, ⟨(line.drop (skip line whitespace ps)).dropWhile wordChar,
      List.takeWhile_append_dropWhile.symm, ?_⟩, rfl, ?_⟩
    · rw [scan]
      exact ⟨rfl, rfl⟩
    · intro d first
      have stops := List.head?_dropWhile_not wordChar (line.drop (skip line whitespace ps))
      rw [Option.mem_def.mp first] at stops
      simpa using stops
    · intro d mem
      exact List.all_eq_true.mp List.all_takeWhile d mem
  refine ⟨?_, ?_, ?_, ?_, .inr ⟨_, rfl, isWord, ?_⟩⟩
  · have length : skip line wordChar (skip line whitespace ps) - skip line whitespace ps =
        ((line.drop (skip line whitespace ps)).takeWhile wordChar).length :=
      Nat.add_sub_cancel_left ..
    rw [scan]
    simp only [Scan.token, if_true, length]
    rw [← List.prefix_iff_eq_take.mp (List.takeWhile_prefix _)]
  · rw [scan]
    rfl
  · rw [scan]
    dsimp only
    omega
  · rw [scan]
    exact skip_le (skip_le (Nat.le_of_lt (lt_length at_)))
  · rw [scan]
    exact span

/-- **What `gettoken` finds** at a character that is not skipped. -/
theorem gettoken_cons (clean : '\x00' ∉ line)
    (at_ : line.drop (skip line whitespace ps) = c :: cs) (stops : whitespace c = false) :
    ∃ t, Found line ps c t := by
  have here : deref line (skip line whitespace ps) = c := by
    rw [deref_eq, at_]
    rfl
  have real : c ≠ '\x00' := by
    rintro rfl
    exact clean (List.mem_of_mem_drop (at_ ▸ List.mem_cons_self ..))
  have room : skip line whitespace ps + 1 + cs.length = line.length := by
    have := congrArg List.length at_
    rw [List.length_drop, List.length_cons] at this
    omega
  by_cases single : c ∈ ['|', '(', ')', ';', '&', '<']
  · have scan : gettoken line ps = ⟨c, skip line whitespace ps, skip line whitespace ps + 1,
        skip line whitespace (skip line whitespace ps + 1)⟩ := by
      unfold gettoken
      dsimp only
      rw [here, if_neg real, if_pos single]
    obtain ⟨t, rfl, first⟩ : ∃ t : Token, t.code = c ∧ t.first = some c := by
      simp only [List.mem_cons, List.not_mem_nil, or_false] at single
      rcases single with rfl | rfl | rfl | rfl | rfl | rfl
      · exact ⟨.bar, rfl, rfl⟩
      · exact ⟨.lparen, rfl, rfl⟩
      · exact ⟨.rparen, rfl, rfl⟩
      · exact ⟨.semi, rfl, rfl⟩
      · exact ⟨.amp, rfl, rfl⟩
      · exact ⟨.less, rfl, rfl⟩
    exact ⟨t, found_symbol Nat.one_pos (by omega) first scan⟩
  by_cases great : c = '>'
  · subst great
    by_cases double : deref line (skip line whitespace ps + 1) = '>'
    · have two : 0 < cs.length := by
        rw [deref_eq, ← List.drop_drop, at_] at double
        cases cs with
        | nil => exact absurd double (by decide)
        | cons d ds => exact Nat.succ_pos _
      refine ⟨.append, found_symbol Nat.two_pos (by omega) rfl ?_⟩
      unfold gettoken
      dsimp only
      rw [here, if_neg real, if_neg single, if_pos rfl, if_pos double]
      rfl
    · refine ⟨.great, found_symbol Nat.one_pos (by omega) rfl ?_⟩
      unfold gettoken
      dsimp only
      rw [here, if_neg real, if_neg single, if_pos rfl, if_neg double]
      rfl
  · have isWord : wordChar c := by
      have noSymbol : symbols c = false := by
        simp only [List.mem_cons, List.not_mem_nil, or_false, not_or] at single
        simp only [symbols, List.mem_cons, List.not_mem_nil, or_false]
        simp [single, great]
      simp only [wordChar, stops, noSymbol, Bool.not_false, Bool.and_self]
    refine ⟨_, found_word at_ isWord ?_⟩
    unfold gettoken
    dsimp only
    rw [here, if_neg real, if_neg single, if_neg great]

end GetToken

/-! ## The tokens from a cursor on -/

/-- The tokens from `ps` on. -/
def tokensAt (line : List Char) (ps : Nat) : List Token :=
  tokensFrom line (line.length - ps) ps

section Tokens

variable {line : List Char} {ps : Nat}

theorem tokensFrom_nil (at_end : line.drop (skip line whitespace ps) = []) (calls : Nat) :
    tokensFrom line calls ps = [] := by
  cases calls with
  | zero => rfl
  | succ calls => exact if_pos (gettoken_nil at_end).1

theorem Found.tokensFrom (found : Found line ps c t) (calls : Nat) :
    tokensFrom line (calls + 1) ps = t :: tokensFrom line calls (gettoken line ps).ps := by
  have real : (gettoken line ps).ret ≠ '\x00' := by
    rw [found.ret]
    exact t.code_ne_nul
  rw [← found.token]
  exact if_neg real

theorem tokensFrom_succ (clean : '\x00' ∉ line) (enough : line.length ≤ calls + ps) :
    tokensFrom line (calls + 1) ps = tokensFrom line calls ps := by
  induction calls generalizing ps with
  | zero =>
    have past : line.drop (skip line whitespace ps) = [] :=
      List.drop_eq_nil_of_le (Nat.le_trans (by omega) le_skip)
    rw [tokensFrom_nil past, tokensFrom_nil past]
  | succ calls ih =>
    have next : line.drop (skip line whitespace ps) = [] ∨
        ∃ c cs, line.drop (skip line whitespace ps) = c :: cs ∧ whitespace c = false :=
      drop_skip_cases
    rcases next with at_end | ⟨c, cs, at_, stops⟩
    · rw [tokensFrom_nil at_end, tokensFrom_nil at_end]
    · obtain ⟨t, found⟩ := gettoken_cons clean at_ stops
      have later := found.later
      rw [found.tokensFrom, found.tokensFrom, ih (by omega)]

theorem tokensFrom_enough (clean : '\x00' ∉ line) (enough : line.length ≤ calls + ps) :
    tokensFrom line calls ps = tokensAt line ps := by
  obtain ⟨more, rfl⟩ : ∃ more, calls = line.length - ps + more :=
    ⟨calls - (line.length - ps), by omega⟩
  induction more with
  | zero => rfl
  | succ more ih =>
    rw [← Nat.add_assoc, tokensFrom_succ clean (by omega)]
    exact ih (by omega)

theorem tokensAt_eq (clean : '\x00' ∉ line) :
    tokensAt line ps = tokensFrom line (line.length - ps + 1) ps :=
  (tokensFrom_enough clean (by omega)).symm

/-- **The tokens from a cursor on**: none at the end of the line, or the one that `gettoken` finds
and the tokens after it. -/
theorem tokensAt_cases (clean : '\x00' ∉ line) (inside : ps ≤ line.length) :
    (tokensAt line ps = [] ∧ skip line whitespace ps = line.length) ∨
      ∃ c cs t, tokensAt line ps = t :: tokensAt line (gettoken line ps).ps ∧
        line.drop (skip line whitespace ps) = c :: cs ∧ Found line ps c t := by
  have next : line.drop (skip line whitespace ps) = [] ∨
      ∃ c cs, line.drop (skip line whitespace ps) = c :: cs ∧ whitespace c = false :=
    drop_skip_cases
  rcases next with at_end | ⟨c, cs, at_, stops⟩
  · refine .inl ⟨?_, ?_⟩
    · exact tokensFrom_nil at_end _
    · have := List.drop_eq_nil_iff.mp at_end
      exact Nat.le_antisymm (skip_le inside) this
  · obtain ⟨t, found⟩ := gettoken_cons clean at_ stops
    refine .inr ⟨c, cs, t, ?_, at_, found⟩
    have later := found.later
    rw [tokensAt_eq clean, found.tokensFrom, tokensFrom_enough clean (by omega)]

theorem tokensAt_skip (clean : '\x00' ∉ line) :
    tokensAt line (skip line whitespace ps) = tokensAt line ps := by
  have before : ps ≤ skip line whitespace ps := le_skip
  have enough : tokensFrom line (line.length - ps + 1) (skip line whitespace ps) =
      tokensAt line (skip line whitespace ps) := tokensFrom_enough clean (by omega)
  rw [← enough, tokensAt_eq clean, tokensFrom, tokensFrom, gettoken_skip]

/-- Whether the first token is one of the symbols `toks`. -/
def starts (toks : List Char) : List Token → Bool
  | [] => false
  | t :: _ => t.first.any fun c => toks.contains c

theorem peek_eq (clean : '\x00' ∉ line) (inside : ps ≤ line.length)
    (only : toks.all symbols = true) :
    peek line toks ps = (starts toks (tokensAt line ps), skip line whitespace ps) := by
  refine Prod.ext ?_ rfl
  rcases tokensAt_cases clean inside with ⟨none, at_end⟩ | ⟨c, cs, t, some, at_, found⟩
  · have nul : deref line (skip line whitespace ps) = '\x00' := by
      rw [deref_eq, List.drop_eq_nil_of_le (Nat.le_of_eq at_end.symm)]
      rfl
    simp only [peek, nul, none, starts]
    rfl
  · have here : deref line (skip line whitespace ps) = c := by
      rw [deref_eq, at_]
      rfl
    have real : c ≠ '\x00' := by
      rintro rfl
      exact clean (List.mem_of_mem_drop (at_ ▸ List.mem_cons_self ..))
    simp only [peek, here, some, starts]
    rcases found.first with first | ⟨w, rfl, isWord, -⟩
    · simp [first, real]
    have outside : c ∉ toks := by
      intro mem
      simp only [wordChar, List.all_eq_true.mp only c mem, Bool.not_true, Bool.and_false] at isWord
      cases isWord
    simp [Token.first, outside]

end Tokens

end Sh
