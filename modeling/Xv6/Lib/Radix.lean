import Xv6.Lib.Ownership

/-!
# Radix trees in memory

A table is a page of words, one for each index of a type `I`; in the inner tables a word may
point to another page (`next`). The table for a path of indices is found by following the
pointers from the root. A path is written with its last index first, so that the recursion on
the list takes the last step.

A tree has `depth` levels of tables. `Owned` of its tables says that no page is used for two
paths. Then a word of a last table can be changed without any other change (`tables_store`,
`leaf_store`), and a page that is not in the tree can be linked as a new table
(`tables_link`, `leaf_link`). What the memory is outside of the tables is left open, and so
is what a write does there.
-/

namespace Radix

open Ownership (Owned)
open Function

variable {P I W : Type}

/-- The table that the pointers lead to. -/
def follow (next : W → Option P) (mem : P → I → W) (root : P) : List I → Option P
  | [] => some root
  | i :: path => (follow next mem root path).bind fun t => next (mem t i)

/-- The tables of a tree with `depth` levels. -/
def tables (next : W → Option P) (mem : P → I → W) (root : P) (depth : Nat) (path : List I) :
    Option P :=
  if path.length < depth then follow next mem root path else none

/-- The word at an index of the table for a path. -/
def leaf (next : W → Option P) (mem : P → I → W) (root : P) (depth : Nat) (path : List I) (i : I) :
    Option W :=
  (tables next mem root depth path).map fun t => mem t i

variable {next : W → Option P} {mem mem' : P → I → W} {root t p : P} {depth : Nat}
  {path : List I} {i : I} {pool : Multiset P} {foreign apart : P → Prop}

theorem tables_of_lt (short : path.length < depth) :
    tables next mem root depth path = follow next mem root path := if_pos short

theorem tables_cons (short : path.length + 1 < depth) (i : I) :
    tables next mem root depth (i :: path) =
      (tables next mem root depth path).bind fun t => next (mem t i) := by
  rw [tables_of_lt short, tables_of_lt (Nat.lt_of_succ_lt short)]
  rfl

theorem follow_congr
    (same : ∀ q t, q.length < n → follow next mem root q = some t → ∀ i, mem' t i = mem t i)
    (q : List I) (short : q.length ≤ n) : follow next mem' root q = follow next mem root q := by
  induction q with
  | nil => rfl
  | cons i q ih =>
    unfold follow
    rw [ih (Nat.le_of_succ_le short)]
    cases found : follow next mem root q with
    | none => rfl
    | some t => exact congrArg next (same q t short found i)

theorem tables_outside (same : ∀ q t, tables next mem root depth q = some t →
    ∀ i, mem' t i = mem t i) : tables next mem' root depth = tables next mem root depth := by
  funext q
  unfold tables
  split
  · next short =>
    refine follow_congr (fun q' t shorter found => same q' t ?_) q le_rfl
    rw [tables_of_lt (Nat.lt_trans shorter short)]
    exact found
  · rfl

theorem leaf_outside (same : ∀ q t, tables next mem root depth q = some t →
    ∀ i, mem' t i = mem t i) : leaf next mem' root depth = leaf next mem root depth := by
  funext q i
  unfold leaf
  rw [tables_outside same]
  cases found : tables next mem root depth q with
  | none => rfl
  | some t => exact congrArg some (same q t found i)

section Store

variable (owned : Owned pool (tables next mem root depth) foreign apart)
  (here : tables next mem root depth path = some t)
  (same : ∀ q t' j, tables next mem root depth q = some t' → t' ≠ t ∨ j ≠ i → mem' t' j = mem t' j)
include owned here same

theorem tables_store (last : path.length + 1 = depth) :
    tables next mem' root depth = tables next mem root depth := by
  funext q
  unfold tables
  split
  · next short =>
    refine follow_congr (fun q' t' shorter found j => ?_) q le_rfl
    have found : tables next mem root depth q' = some t' := by
      rw [tables_of_lt (Nat.lt_trans shorter short)]
      exact found
    refine same q' t' j found (.inl fun is => ?_)
    -- the page of the last table is on no shorter path
    have paths := owned.inj found (is ▸ here)
    subst paths
    omega
  · rfl

theorem leaf_store [DecidableEq I] (last : path.length + 1 = depth) (q : List I) (j : I) :
    leaf next mem' root depth q j =
      if q = path ∧ j = i then some (mem' t i) else leaf next mem root depth q j := by
  unfold leaf
  rw [tables_store owned here same last]
  split
  · next at_ => rw [at_.1, at_.2, here, Option.map_some]
  rename_i away
  cases found : tables next mem root depth q with
  | none => rfl
  | some t' =>
    refine congrArg some (same q t' j found ?_)
    by_cases is : t' = t
    · exact .inr fun sameIndex => away ⟨owned.inj found (is ▸ here), sameIndex⟩
    · exact .inl is

variable (inner : path.length + 1 < depth) (absent : next (mem t i) = none)
  (linked : next (mem' t i) = some p) (blank : ∀ j, next (mem' p j) = none)
include inner absent linked blank

theorem tables_link [DecidableEq I] : tables next mem' root depth =
    update (tables next mem root depth) (i :: path) (some p) := by
  funext q
  induction q with
  | nil =>
    rfl
  | cons j q ih =>
    by_cases short : q.length + 1 < depth
    · rw [tables_cons short, ih]
      by_cases new : q = i :: path
      · -- below the new table there is nothing
        subst new
        have longer : j :: i :: path ≠ i :: path := fun is => by
          have := congrArg List.length is
          simp at this
        rw [update_self, update_of_ne longer, tables_cons short,
          tables_cons inner, here, Option.bind_some, Option.bind_some, blank, absent]
        rfl
      · rw [update_of_ne new]
        cases found : tables next mem root depth q with
        | none =>
          have other : j :: q ≠ i :: path := by
            intro is
            cases is
            rw [here] at found
            cases found
          rw [update_of_ne other, tables_cons short, found]
          rfl
        | some t' =>
          rw [Option.bind_some]
          by_cases at_ : j :: q = i :: path
          · cases at_
            rw [here] at found
            cases found
            rw [update_self, linked]
          rw [update_of_ne at_, tables_cons short, found, Option.bind_some]
          refine congrArg next (same q t' j found ?_)
          by_cases is : t' = t
          · refine .inr fun sameIndex => at_ ?_
            rw [owned.inj found (is ▸ here), sameIndex]
          · exact .inl is
    · have other : j :: q ≠ i :: path := by
        intro is
        cases is
        exact short inner
      have none (m : P → I → W) : tables next m root depth (j :: q) = none := if_neg short
      rw [update_of_ne other, none, none]

theorem leaf_link [DecidableEq I] (last : q.length + 1 = depth) (j : I) :
    leaf next mem' root depth q j =
      if q = i :: path then some (mem' p j) else leaf next mem root depth q j := by
  unfold leaf
  rw [tables_link owned here same inner absent linked blank]
  split
  · next new => rw [new, update_self, Option.map_some]
  rename_i old
  rw [update_of_ne old]
  cases found : tables next mem root depth q with
  | none => rfl
  | some t' =>
    refine congrArg some (same q t' j found (.inl fun is => ?_))
    have paths := owned.inj found (is ▸ here)
    subst paths
    omega

end Store

end Radix
