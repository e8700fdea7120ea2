import Mathlib.Data.List.Basic

/-!
# The words of a list

The words of a list are its maximal runs of elements that are no separators, in their order.
-/

variable {α : Type} {sep : α → Bool} {c : α} {l : List α}

def words (sep : α → Bool) (l : List α) : List (List α) :=
  (l.splitOnP sep).filter (!·.isEmpty)

theorem words_sep (isSep : sep c = true) : words sep (c :: l) = words sep l := by
  unfold words
  rw [← List.nil_append (c :: l), List.splitOnP_append_cons_of_forall_mem (by simp) _ isSep]
  rfl

theorem words_cons (inWord : sep c = false) :
    words sep (c :: l) = (c :: l.takeWhile (!sep ·)) :: words sep (l.dropWhile (!sep ·)) := by
  have run : ∀ x ∈ c :: l.takeWhile (!sep ·), sep x = false := by
    intro x mem
    rcases List.mem_cons.mp mem with rfl | mem
    · exact inWord
    · simpa using List.all_eq_true.mp List.all_takeWhile x mem
  have whole : l.takeWhile (!sep ·) ++ l.dropWhile (!sep ·) = l := List.takeWhile_append_dropWhile
  cases rest : l.dropWhile (!sep ·) with
  | nil =>
    rw [rest, List.append_nil] at whole
    rw [whole] at run ⊢
    rw [words, List.splitOnP_eq_singleton run]
    rfl
  | cons d ds =>
    have isSep : sep d = true := by
      have stops := List.head?_dropWhile_not (!sep ·) l
      rw [rest] at stops
      simpa using stops
    rw [rest] at whole
    rw [words_sep isSep]
    conv_lhs => rw [← whole, ← List.cons_append, words,
      List.splitOnP_append_cons_of_forall_mem run _ isSep]
    rfl
