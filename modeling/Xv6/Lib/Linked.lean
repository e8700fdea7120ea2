import Mathlib.Data.List.Chain

/-!
# Singly linked lists

Nodes `α` with one pointer each, `next : α → α`. `Linked next nodes` says that every node of
`nodes` points to the one after it; a circular list through `a` is `Linked next (nodes ++ [a])`
with `a` the first of `nodes`. `search` is the loop that follows the pointers until a node
satisfies a test: on a circular list with such a node it ends, whichever node it starts from.
-/

/-- Each node of the list points to the one after it. -/
def Linked {α : Type} (next : α → α) (nodes : List α) : Prop :=
  nodes.IsChain fun a b => next a = b

namespace Linked

variable {α : Type} {next next' : α → α} {a b q : α} {l r nodes : List α}

theorem split : Linked next (l ++ a :: r) ↔ Linked next (l ++ [a]) ∧ Linked next (a :: r) :=
  List.isChain_split

theorem split_cons :
    Linked next (l ++ a :: b :: r) ↔ Linked next (l ++ [a]) ∧ next a = b ∧ Linked next (b :: r) :=
  List.isChain_append_cons_cons

theorem cons_cons : Linked next (a :: b :: r) ↔ next a = b ∧ Linked next (b :: r) :=
  List.isChain_cons_cons

theorem singleton : Linked next [a] :=
  List.isChain_singleton a

theorem congr (linked : Linked next (l ++ [b])) (same : ∀ a ∈ l, next' a = next a) :
    Linked next' (l ++ [b]) := by
  induction l with
  | nil => exact singleton
  | cons a l ih =>
    have here : next' a = next a := same a (List.mem_cons_self ..)
    have rest : ∀ a ∈ l, next' a = next a := fun c mem => same c (List.mem_cons_of_mem _ mem)
    cases l with
    | nil =>
      obtain ⟨points, -⟩ := cons_cons.mp linked
      exact cons_cons.mpr ⟨here.trans points, singleton⟩
    | cons c l =>
      obtain ⟨points, linked⟩ := cons_cons.mp linked
      exact cons_cons.mpr ⟨here.trans points, ih linked rest⟩

theorem reroute (linked : Linked next (a :: r ++ [b])) (points : next' q = next a)
    (same : ∀ c ∈ r, next' c = next c) : Linked next' (q :: r ++ [b]) := by
  cases r with
  | nil =>
    obtain ⟨to_, -⟩ := cons_cons.mp linked
    exact cons_cons.mpr ⟨points.trans to_, singleton⟩
  | cons c r =>
    obtain ⟨to_, rest⟩ := cons_cons.mp linked
    exact cons_cons.mpr ⟨points.trans to_, congr (l := c :: r) rest same⟩

/-! ## Circular lists -/

theorem rotate (linked : Linked next (nodes ++ [b])) (head : nodes.head? = some b)
    (at_ : nodes = l ++ a :: r) : Linked next (a :: (r ++ l) ++ [a]) := by
  subst at_
  cases l with
  | nil =>
    obtain rfl : a = b := Option.some.inj head
    rwa [List.append_nil]
  | cons c l =>
    obtain rfl : c = b := Option.some.inj head
    rw [List.append_assoc, List.cons_append, List.cons_append, ← List.cons_append] at linked
    obtain ⟨front, back⟩ := split.mp linked
    have joined : Linked next (a :: r ++ c :: (l ++ [a])) := split.mpr ⟨back, front⟩
    simpa only [List.cons_append, List.append_assoc] using joined

theorem next_of_split (linked : Linked next (l ++ q :: r ++ [b])) : next q = r.headD b := by
  rw [List.append_assoc, List.cons_append] at linked
  cases r with
  | nil | cons c r => exact (split_cons.mp linked).2.1

/-! ## Searches -/

/-- `for(p = a; !stop(p); p = next(p));`, by at most `fuel` tests. -/
def search (next : α → α) (stop : α → Bool) : Nat → α → Option α
  | 0, _ => none
  | fuel + 1, a => if stop a then some a else search next stop fuel (next a)

theorem search_ends (linked : Linked next (a :: l ++ [b])) (stops : ∃ c ∈ a :: l, stop c) :
    ∃ c, ∀ fuel, l.length < fuel → search next stop fuel a = some c := by
  induction l generalizing a with
  | nil =>
    obtain ⟨c, mem, test⟩ := stops
    obtain rfl : c = a := List.mem_singleton.mp mem
    refine ⟨c, ?_⟩
    intro fuel enough
    obtain ⟨fuel, rfl⟩ := Nat.exists_eq_add_of_lt enough
    simp only [search, test, if_true]
  | cons x l ih =>
    by_cases test : stop a
    · refine ⟨a, ?_⟩
      intro fuel enough
      obtain ⟨fuel, rfl⟩ := Nat.exists_eq_add_of_lt enough
      simp only [search, test, if_true]
    obtain ⟨points, rest⟩ := cons_cons.mp linked
    have later : ∃ c ∈ x :: l, stop c := by
      obtain ⟨c, mem, found⟩ := stops
      rcases List.mem_cons.mp mem with rfl | mem
      · exact absurd found test
      · exact ⟨c, mem, found⟩
    obtain ⟨c, run⟩ := ih rest later
    refine ⟨c, ?_⟩
    intro fuel enough
    obtain ⟨fuel, rfl⟩ : ∃ n, fuel = n + 1 := Nat.exists_eq_succ_of_ne_zero (by omega)
    rw [search, if_neg test, points]
    exact run fuel (Nat.lt_of_succ_lt_succ enough)

/-- **A search of a circular list ends** if some node satisfies the test. -/
theorem search_ring (linked : Linked next (nodes ++ [b])) (head : nodes.head? = some b)
    (from_ : a ∈ nodes) (stops : ∃ c ∈ nodes, stop c) :
    ∃ c, ∀ fuel, nodes.length ≤ fuel → search next stop fuel a = some c := by
  obtain ⟨l, r, rfl⟩ := List.append_of_mem from_
  have stops : ∃ c ∈ a :: (r ++ l), stop c := by
    obtain ⟨c, mem, found⟩ := stops
    refine ⟨c, ?_, found⟩
    simp only [List.mem_cons, List.mem_append] at mem ⊢
    tauto
  obtain ⟨c, run⟩ := search_ends (rotate linked head rfl) stops
  refine ⟨c, ?_⟩
  intro fuel enough
  refine run fuel ?_
  simp only [List.length_append, List.length_cons] at enough ⊢
  omega

theorem search_some {stop : α → Bool} {P : α → Prop} {fuel : Nat} {c : α}
    (closed : ∀ a, P a → P (next a)) (start : P a) (run : search next stop fuel a = some c) :
    P c ∧ stop c := by
  induction fuel generalizing a with
  | zero => cases run
  | succ fuel ih =>
    rw [search] at run
    split at run
    · next test =>
      obtain rfl : a = c := Option.some.inj run
      exact ⟨start, test⟩
    · exact ih (closed a start) run

theorem closed (linked : Linked next (nodes ++ [b])) (head : nodes.head? = some b)
    (mem : a ∈ nodes) : next a ∈ nodes := by
  obtain ⟨l, r, rfl⟩ := List.append_of_mem mem
  rw [next_of_split linked]
  cases r with
  | nil => exact List.mem_of_head? head
  | cons c r => simp

end Linked
