import Xv6.Lib.Fuel
import Xv6.Lib.Words

/-!
# The tokenizer of g5_shell

`main` of `Shell/shell.c` from the line that `fgets` leaves in the buffer to the argument vector.
A pointer that `strtok` returns is kept as the string it points to: a later call writes its NUL
behind that string. A store outside of `args` is undefined; it is an error here that names the
index.
-/

namespace Shell

def SIZE : Nat := 200

abbrev Args := Vector (Option (List Char)) 25

/-- `buffer[strcspn(buffer, "\n")] = 0`: the C string that is left in the buffer. -/
def strip (buffer : List Char) : List Char :=
  buffer.takeWhile fun c => c ≠ '\n' ∧ c ≠ '\x00'

def isDelim (c : Char) : Bool :=
  c = ' '

/-- `strtok` with the delimiter `" "`: the token and the text for the next call, or NULL. -/
def strtok (s : List Char) : Option (List Char × List Char) :=
  match s.dropWhile isDelim with
  | [] => none
  | c :: s => some (c :: s.takeWhile (!isDelim ·), (s.dropWhile (!isDelim ·)).tail)

def assign (args : Args) (i : Nat) (command : Option (List Char)) : Fueled Nat Args :=
  if h : i < 25 then .ok (args.set i command) else .error i

/-- The loop over the tokens, and `args[i] = NULL` after it. -/
def tokenLoop : Nat → Args → Nat → List Char → Fueled Nat Args
  | 0, _, _, _ => .out
  | fuel + 1, args, i, s =>
    match strtok s with
    | none => assign args i none
    | some (command, rest) => do
      let args ← assign args i (some command)
      tokenLoop fuel args (i + 1) rest

/-- The arguments of the line in the buffer, if its tokens are looked at. -/
def tokenize (args : Args) (buffer : List Char) : Fueled Nat Args :=
  tokenLoop ((strip buffer).length + 1) args 0 (strip buffer)

/-- The space-separated tokens of the line in the buffer. -/
def tokens (buffer : List Char) : List (List Char) :=
  words isDelim (strip buffer)

section Tokens

variable {s : List Char}

theorem words_dropWhile : words isDelim (s.dropWhile isDelim) = words isDelim s := by
  induction s with
  | nil => rfl
  | cons c s ih =>
    cases isSep : isDelim c with
    | false => rw [List.dropWhile_cons_of_neg (by simp [isSep])]
    | true => rw [List.dropWhile_cons_of_pos isSep, ih, words_sep isSep]

theorem strtok_eq :
    (strtok s = none ∧ words isDelim s = []) ∨
    ∃ token rest, strtok s = some (token, rest) ∧ words isDelim s = token :: words isDelim rest ∧
      rest.length < s.length := by
  rw [strtok, ← words_dropWhile]
  cases at_ : s.dropWhile isDelim with
  | nil => exact .inl ⟨rfl, rfl⟩
  | cons c cs =>
    have first : isDelim c = false := by
      have stops := List.head?_dropWhile_not isDelim s
      rw [at_] at stops
      simpa using stops
    have short : (c :: cs).length ≤ s.length := at_ ▸ (List.dropWhile_sublist _).length_le
    have tail : words isDelim (cs.dropWhile (!isDelim ·)).tail =
        words isDelim (cs.dropWhile (!isDelim ·)) := by
      cases rest : cs.dropWhile (!isDelim ·) with
      | nil => rfl
      | cons d ds =>
        have stops := List.head?_dropWhile_not (!isDelim ·) cs
        rw [rest] at stops
        exact (words_sep (by simpa using stops)).symm
    refine .inr ⟨_, _, rfl, (words_cons first).trans (by rw [tail]), ?_⟩
    calc (cs.dropWhile (!isDelim ·)).tail.length ≤ cs.length :=
          ((List.tail_sublist _).trans (List.dropWhile_sublist _)).length_le
      _ < s.length := short

/-- The loop fills the array with the tokens and NULL, or it leaves the array at index 25. -/
theorem tokenLoop_eq (enough : s.length < fuel) (inside : i ≤ 25) (args : Args) :
    (25 ≤ i + (words isDelim s).length ∧ tokenLoop fuel args i s = .error 25) ∨
    i + (words isDelim s).length < 25 ∧ ∃ args' : Args, tokenLoop fuel args i s = .ok args' ∧
      args'.toList.take (i + (words isDelim s).length + 1) =
        args.toList.take i ++ ((words isDelim s).map some ++ [none]) := by
  induction fuel generalizing s i args with
  | zero => exact absurd enough (Nat.not_lt_zero _)
  | succ fuel ih =>
    by_cases room : i < 25
    swap
    · obtain rfl : i = 25 := by omega
      refine .inl ⟨Nat.le_add_right .., ?_⟩
      unfold tokenLoop
      rcases strtok_eq (s := s) with ⟨none, -⟩ | ⟨token, rest, found, -⟩
      · rw [none]
        rfl
      · rw [found]
        rfl
    have stored : ∀ p, assign args i p = .ok (args.set i p) := fun p => dif_pos room
    have front : ∀ p, (args.set i p).toList.take (i + 1) = args.toList.take i ++ [p] := by
      intro p
      rw [Vector.toList_set, List.take_set, List.take_add_one,
        List.set_append_right _ _ (List.length_take_le ..)]
      simp [room, Nat.le_of_lt room]
    unfold tokenLoop
    rcases strtok_eq (s := s) with ⟨at_end, empty⟩ | ⟨token, rest, found, first, shorter⟩
    · rw [at_end, empty]
      exact .inr ⟨room, _, stored none, front none⟩
    · rw [found, first, List.length_cons, ← Nat.add_assoc]
      have later := ih (s := rest) (i := i + 1) (by omega) room (args.set i (some token))
      rw [front, Nat.add_right_comm i, List.append_assoc] at later
      simp only [stored, bind, Fueled.bind]
      exact later

end Tokens

/-- **The tokenizer of g5_shell** stays inside of `args`, and leaves there the tokens of the line
and NULL, for exactly the lines of less than 25 tokens. -/
theorem tokenize_inside_iff (args : Args) (buffer : List Char) :
    (∃ args' : Args, tokenize args buffer = .ok args' ∧
      args'.toList.take ((tokens buffer).length + 1) = (tokens buffer).map some ++ [none]) ↔
    (tokens buffer).length < 25 := by
  have loop := tokenLoop_eq (Nat.lt_succ_self (strip buffer).length) (Nat.zero_le 25) args
  rw [Nat.zero_add] at loop
  constructor
  · rintro ⟨args', run, -⟩
    rcases loop with ⟨-, full⟩ | ⟨few, -⟩
    · cases run.symm.trans full
    · exact few
  · intro few
    rcases loop with ⟨many, -⟩ | ⟨-, found⟩
    · exact absurd few (Nat.not_lt.mpr many)
    · exact found

/-- 25 tokens in a line of 49 characters. -/
theorem tokenize_leaves_array :
    ∃ buffer : List Char, buffer.length < SIZE ∧ ∀ args : Args, tokenize args buffer = .error 25 :=
  ⟨"a a a a a a a a a a a a a a a a a a a a a a a a a\n".toList, by decide, fun _ => rfl⟩

end Shell
