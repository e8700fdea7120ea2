import Mathlib.Data.List.Basic

/-!
# The matcher of grep

`match`, `matchhere` and `matchstar` of `user/grep.c`, on strings without their NUL: the end of the
list is where the source reads it. A pattern denotes a list of items, and the matcher looks for a
part of the text that matches them.
-/

namespace Grep

/-- `re[0] == '.' || re[0] == *text` -/
def allows (c t : Char) : Bool :=
  c = '.' || c = t

/-- `matchstar`, where `here` is `matchhere` with the rest of the pattern. -/
def matchstar (here : List Char → Bool) (c : Char) : List Char → Bool
  | [] => here []
  | t :: text => here (t :: text) || (allows c t && matchstar here c text)

def matchhere : List Char → List Char → Bool
  | [], _ => true
  | c :: '*' :: re, text => matchstar (matchhere re) c text
  | ['$'], text => text.isEmpty
  | _ :: _, [] => false
  | c :: re, t :: text => allows c t && matchhere re text

/-- The loop of `match`. -/
def search (re : List Char) : List Char → Bool
  | [] => matchhere re []
  | t :: text => matchhere re (t :: text) || search re text

def match_ : List Char → List Char → Bool
  | '^' :: re, text => matchhere re text
  | re, text => search re text

/-! ## Patterns -/

inductive Item where
  | star (c : Char)
  | one (c : Char)
  | atEnd

/-- A pattern read from left to right. -/
def items : List Char → List Item
  | [] => []
  | c :: '*' :: re => .star c :: items re
  | ['$'] => [.atEnd]
  | c :: re => .one c :: items re

/-- The items match a part of the text that is followed by `rest`. -/
inductive Matches (rest : List Char) : List Item → List Char → Prop
  | nil : Matches rest [] []
  | star {c : Char} {is : List Item} {u w : List Char} :
      (∀ t ∈ u, allows c t) → Matches rest is w → Matches rest (.star c :: is) (u ++ w)
  | one {c t : Char} {is : List Item} {w : List Char} :
      allows c t → Matches rest is w → Matches rest (.one c :: is) (t :: w)
  | atEnd : rest = [] → Matches rest [.atEnd] []

/-- The items match at the start of the text. -/
def MatchesAt (is : List Item) (text : List Char) : Prop :=
  ∃ w rest, text = w ++ rest ∧ Matches rest is w

section Correct

variable {c : Char} {re text : List Char} {is : List Item}

theorem matchstar_iff :
    matchstar here c text ↔ ∃ u v, text = u ++ v ∧ (∀ t ∈ u, allows c t) ∧ here v := by
  induction text with
  | nil =>
    constructor
    · intro found
      exact ⟨[], [], rfl, nofun, found⟩
    · rintro ⟨u, v, split, -, found⟩
      obtain ⟨-, rfl⟩ := List.append_eq_nil_iff.mp split.symm
      exact found
  | cons t text ih =>
    rw [matchstar, Bool.or_eq_true, Bool.and_eq_true, ih]
    constructor
    · rintro (found | ⟨first, u, v, rfl, all, found⟩)
      · exact ⟨[], t :: text, rfl, nofun, found⟩
      · exact ⟨t :: u, v, rfl, List.forall_mem_cons.mpr ⟨first, all⟩, found⟩
    · rintro ⟨u, v, split, all, found⟩
      cases u with
      | nil => exact .inl (split ▸ found)
      | cons s u =>
        obtain ⟨rfl, rest⟩ := List.cons.inj split
        obtain ⟨first, all⟩ := List.forall_mem_cons.mp all
        exact .inr ⟨first, u, v, rest, all, found⟩

theorem matchesAt_nil : MatchesAt [] text := ⟨[], text, rfl, .nil⟩

theorem matchesAt_star :
    MatchesAt (.star c :: is) text ↔ ∃ u v, text = u ++ v ∧ (∀ t ∈ u, allows c t) ∧
      MatchesAt is v := by
  constructor
  · rintro ⟨-, rest, rfl, ⟨⟩⟩
    next u w all found => exact ⟨u, w ++ rest, List.append_assoc .., all, w, rest, rfl, found⟩
  · rintro ⟨u, -, rfl, all, w, rest, rfl, found⟩
    exact ⟨u ++ w, rest, (List.append_assoc ..).symm, .star all found⟩

theorem matchesAt_atEnd : MatchesAt [.atEnd] text ↔ text = [] := by
  constructor
  · rintro ⟨w, rest, rfl, found⟩
    cases found with
    | atEnd at_ => exact at_
  · rintro rfl
    exact ⟨[], [], rfl, .atEnd rfl⟩

theorem matchesAt_one : MatchesAt (.one c :: is) text ↔
    ∃ t text', text = t :: text' ∧ allows c t ∧ MatchesAt is text' := by
  constructor
  · rintro ⟨-, rest, rfl, ⟨⟩⟩
    next t w first found => exact ⟨t, w ++ rest, rfl, first, w, rest, rfl, found⟩
  · rintro ⟨t, -, rfl, first, w, rest, rfl, found⟩
    exact ⟨t :: w, rest, rfl, .one first found⟩

theorem matchhere_iff : matchhere re text ↔ MatchesAt (items re) text := by
  fun_induction items re generalizing text with
  | case1 => simp [matchhere, matchesAt_nil]
  | case2 c re ih => simp only [matchhere, matchstar_iff, matchesAt_star, ih]
  | case3 => rw [matchhere, matchesAt_atEnd, List.isEmpty_iff]
  | case4 c re notStar notEnd ih =>
    rw [matchesAt_one]
    cases text with
    | nil => rw [matchhere] <;> simp_all
    | cons t text => rw [matchhere] <;> simp_all

theorem search_iff : search re text ↔ ∃ pre suffix, text = pre ++ suffix ∧
    MatchesAt (items re) suffix := by
  induction text with
  | nil => simp [search, matchhere_iff]
  | cons t text ih =>
    rw [search, Bool.or_eq_true, matchhere_iff, ih]
    constructor
    · rintro (here | ⟨pre, suffix, rfl, found⟩)
      · exact ⟨[], t :: text, rfl, here⟩
      · exact ⟨t :: pre, suffix, rfl, found⟩
    · rintro ⟨pre, suffix, split, found⟩
      cases pre with
      | nil => exact .inl (split ▸ found)
      | cons s pre => exact .inr ⟨pre, suffix, (List.cons.inj split).2, found⟩

end Correct

/-- **The matcher is correct**: it finds a match if and only if a part of the text matches the
items of the pattern, the text from its start on if the pattern begins with `^`. -/
theorem match_iff (re text : List Char) :
    match_ re text = true ↔ ∃ pre w rest, text = pre ++ w ++ rest ∧
      if re.head? = some '^' then pre = [] ∧ Matches rest (items re.tail) w
      else Matches rest (items re) w := by
  unfold match_
  split
  · simp [matchhere_iff, MatchesAt]
  · next other =>
    have head : re.head? ≠ some '^' := fun is =>
      let ⟨_, same⟩ := List.head?_eq_some_iff.mp is
      other _ same
    simp [search_iff, MatchesAt, head]

end Grep
