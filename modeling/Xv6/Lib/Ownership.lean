import Mathlib.Data.Multiset.UnionInter

/-!
# Ownership of resources

A pool of resources, and a holder that has taken some of them, each under a key.
The pool has no resource twice; what the holder has is not in the pool and is
under one key only. Other holders may exist. Of these one knows only
`foreign`, the resources that they have, which the pool must not have, and
`apart`, those of them that the holder must not have either.

The rules say what keeps `Owned`: a resource moves from the pool to a key or back,
a key is dropped, a foreign resource is taken up under a key.
-/

namespace Ownership

open Function

variable {κ α : Type}

/-- The holder's resources `own` and the pool have nothing in common. -/
structure Owned (pool : Multiset α) (own : κ → Option α) (foreign apart : α → Prop) : Prop where
  nodup : pool.Nodup
  outside : ∀ {i x}, own i = some x → x ∉ pool
  inj : ∀ {i j x}, own i = some x → own j = some x → i = j
  foreign_outside : ∀ {x}, foreign x → x ∉ pool
  own_apart : ∀ {i x}, own i = some x → ¬ apart x

variable {pool pool' : Multiset α} {own own' : κ → Option α} {foreign apart : α → Prop} {x : α}
  {i : κ}

namespace Owned

theorem of_none (nodup : pool.Nodup) (out : ∀ {x}, foreign x → x ∉ pool)
    (empty : ∀ i, own i = none) : Owned pool own foreign apart where
  nodup := nodup
  outside held := by rw [empty] at held; cases held
  inj held := by rw [empty] at held; cases held
  foreign_outside := out
  own_apart held := by rw [empty] at held; cases held

theorem mono (h : Owned pool own foreign apart) (le : pool' ≤ pool)
    (fewer : ∀ i x, own' i = some x → own i = some x) : Owned pool' own' foreign apart where
  nodup := Multiset.nodup_of_le le h.nodup
  outside held mem := h.outside (fewer _ _ held) (Multiset.mem_of_le le mem)
  inj held held' := h.inj (fewer _ _ held) (fewer _ _ held')
  foreign_outside away mem := h.foreign_outside away (Multiset.mem_of_le le mem)
  own_apart held := h.own_apart (fewer _ _ held)

theorem fewer (h : Owned pool own foreign apart)
    (fewer : ∀ i x, own' i = some x → own i = some x) : Owned pool own' foreign apart :=
  h.mono (le_refl pool) fewer

theorem closer (h : Owned pool own foreign apart) (closer : ∀ i x, own i = some x → ¬ apart' x) :
    Owned pool own foreign apart' :=
  ⟨h.nodup, h.outside, h.inj, h.foreign_outside, fun held => closer _ _ held⟩

theorem fresh (h : Owned (x ::ₘ pool) own foreign apart) :
    x ∉ pool ∧ ¬ foreign x ∧ ∀ i, own i ≠ some x := by
  refine ⟨(Multiset.nodup_cons.mp h.nodup).1, ?_, ?_⟩
  · intro away
    exact h.foreign_outside away (Multiset.mem_cons_self x pool)
  · intro i held
    exact h.outside held (Multiset.mem_cons_self x pool)

theorem take (h : Owned (x ::ₘ pool) own foreign apart) : Owned pool own foreign apart :=
  h.mono (Multiset.le_cons_self pool x) fun _ _ held => held

theorem give (h : Owned pool own foreign apart) (out : x ∉ pool) (unowned : ∀ i, own i ≠ some x)
    (mine : ¬ foreign x) : Owned (x ::ₘ pool) own foreign apart := by
  refine ⟨Multiset.nodup_cons.mpr ⟨out, h.nodup⟩, ?_, h.inj, ?_, h.own_apart⟩
  · intro i y held mem
    rcases Multiset.mem_cons.mp mem with rfl | mem
    · exact unowned i held
    · exact h.outside held mem
  · intro y away mem
    rcases Multiset.mem_cons.mp mem with rfl | mem
    · exact mine away
    · exact h.foreign_outside away mem

variable [DecidableEq κ]

/-- A resource outside the pool that no other key has is put under a key. -/
theorem assign (h : Owned pool own foreign apart) (i : κ) (out : x ∉ pool)
    (unowned : ∀ i, own i ≠ some x) (away : ¬ apart x) :
    Owned pool (update own i (some x)) foreign apart := by
  have cases_update {j : κ} {y : α} (held : update own i (some x) j = some y) :
      j = i ∧ y = x ∨ j ≠ i ∧ own j = some y := by
    by_cases same : j = i
    · subst same
      rw [update_self] at held
      exact .inl ⟨rfl, (Option.some.inj held).symm⟩
    · rw [update_of_ne same] at held
      exact .inr ⟨same, held⟩
  refine ⟨h.nodup, ?_, ?_, h.foreign_outside, ?_⟩
  · intro j y held
    rcases cases_update held with ⟨-, rfl⟩ | ⟨-, held⟩
    · exact out
    · exact h.outside held
  · intro j l y held held'
    rcases cases_update held with ⟨atj, isx⟩ | ⟨-, old⟩
    · rcases cases_update held' with ⟨atl, -⟩ | ⟨-, old'⟩
      · rw [atj, atl]
      · rw [isx] at old'
        exact absurd old' (unowned l)
    · rcases cases_update held' with ⟨-, isx⟩ | ⟨-, old'⟩
      · rw [isx] at old
        exact absurd old (unowned j)
      · exact h.inj old old'
  · intro j y held
    rcases cases_update held with ⟨-, rfl⟩ | ⟨-, held⟩
    · exact away
    · exact h.own_apart held

theorem grant (h : Owned (x ::ₘ pool) own foreign apart) (i : κ)
    (sub : ∀ x, apart x → foreign x) : Owned pool (update own i (some x)) foreign apart := by
  obtain ⟨out, notForeign, unowned⟩ := h.fresh
  exact h.take.assign i out unowned fun away => notForeign (sub x away)

end Owned

end Ownership
