import Mathlib.Data.Finset.Card
import Mathlib.Data.Fintype.Basic

/-!
# Reference counts

A table of references is a function `t : κ → Option α`, which says for each place of the
table what it refers to, if it does. `held t` collects all that a table refers to, each as
often as there are places for it; `Counted ref held` says that `ref` counts a collection of
references exactly. References that are in no table, since a program is about to store or
to drop them, are put in front of the collection.
-/

namespace Refs

open Function

variable {α κ : Type}

section Held

theorem filterMap_congr {t t' : κ → Option α} {keys : Multiset κ} (same : ∀ k ∈ keys, t k = t' k) :
    keys.filterMap t = keys.filterMap t' := by
  induction keys using Quotient.inductionOn with
  | h keys =>
    have same : ∀ k ∈ keys, t k = t' k := same
    exact congrArg _ (List.filterMap_congr same)

theorem count_filterMap [DecidableEq α] (t : κ → Option α) (a : α) (keys : Multiset κ) :
    (keys.filterMap t).count a = (keys.filter fun k => t k = some a).card := by
  induction keys using Multiset.induction with
  | empty => rfl
  | cons k keys ih =>
    cases here : t k with
    | none =>
      rw [Multiset.filterMap_cons_none _ _ here, ih,
        Multiset.filter_cons_of_neg (p := fun k => t k = some a) _ (by simp [here])]
    | some b =>
      rw [Multiset.filterMap_cons_some _ _ _ here]
      by_cases same : a = b
      · subst same
        rw [Multiset.count_cons_self, ih,
          Multiset.filter_cons_of_pos (p := fun k => t k = some a) _ here, Multiset.card_cons]
      · rw [Multiset.count_cons_of_ne same, ih, Multiset.filter_cons_of_neg
          (p := fun k => t k = some a) _ (by simpa [here] using Ne.symm same)]

variable [Fintype κ]

/-- All that a table refers to. -/
@[irreducible] def held (t : κ → Option α) : Multiset α := (Finset.univ : Finset κ).val.filterMap t

theorem mem_held {t : κ → Option α} {a : α} : a ∈ held t ↔ ∃ k, t k = some a := by
  simp [held, Multiset.mem_filterMap]

theorem count_held [DecidableEq α] (t : κ → Option α) (a : α) :
    (held t).count a = (Finset.univ.filter fun k => t k = some a).card := by
  unfold held
  exact count_filterMap t a _

theorem held_none {t : κ → Option α} (empty : ∀ k, t k = none) : held t = 0 := by
  refine Multiset.eq_zero_of_forall_notMem fun a mem => ?_
  obtain ⟨k, here⟩ := mem_held.mp mem
  rw [empty k] at here
  cases here

variable [DecidableEq κ]

theorem held_eq (t : κ → Option α) (k : κ) :
    held t = (t k).toList + (Finset.univ.erase k).val.filterMap t := by
  have split : (Finset.univ : Finset κ).val = k ::ₘ (Finset.univ.erase k).val := by
    rw [Finset.erase_val]
    exact (Multiset.cons_erase (Finset.mem_univ k)).symm
  unfold held
  rw [split]
  cases here : t k with
  | none => rw [Multiset.filterMap_cons_none _ _ here]; simp
  | some a => rw [Multiset.filterMap_cons_some _ _ _ here]; simp

theorem held_update (t : κ → Option α) (k : κ) (r : Option α) :
    held (update t k r) = r.toList + (Finset.univ.erase k).val.filterMap t := by
  rw [held_eq _ k, update_self]
  congr 1
  refine filterMap_congr fun j mem => ?_
  exact update_of_ne (Finset.ne_of_mem_erase mem) _ _

theorem held_store {t : κ → Option α} {k : κ} (free : t k = none) (a : α) :
    held (update t k (some a)) = a ::ₘ held t := by
  rw [held_update, held_eq t k, free]
  simp

theorem held_clear {t : κ → Option α} {k : κ} {a : α} (here : t k = some a) :
    held t = a ::ₘ held (update t k none) := by
  rw [held_update, held_eq t k, here]
  simp

end Held

section Counted

variable [DecidableEq α] {ref ref' : α → Nat} {H : Multiset α} {a : α}

/-- The counts are exact. -/
def Counted (ref : α → Nat) (H : Multiset α) : Prop := ∀ a, ref a = H.count a

theorem Counted.mem_iff (h : Counted ref H) : a ∈ H ↔ 0 < ref a := by
  rw [h a, Multiset.count_pos]

theorem Counted.more (h : Counted ref H) (a : α) :
    Counted (update ref a (ref a + 1)) (a ::ₘ H) := by
  intro b
  by_cases same : b = a
  · subst same
    rw [update_self, Multiset.count_cons_self, h b]
  · rw [update_of_ne same, Multiset.count_cons_of_ne same, h b]

theorem Counted.fewer (h : Counted ref (a ::ₘ H)) : Counted (update ref a (ref a - 1)) H := by
  intro b
  by_cases same : b = a
  · subst same
    rw [update_self, h b, Multiset.count_cons_self, Nat.add_sub_cancel]
  · rw [update_of_ne same, h b, Multiset.count_cons_of_ne same]

end Counted

end Refs
