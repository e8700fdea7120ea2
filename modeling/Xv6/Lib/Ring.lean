import Mathlib.Data.List.Induction
import Mathlib.Data.List.Nodup

/-!
# Circular doubly linked lists

A ring of nodes `α` through a list head, by its `next` and `prev` pointers. The head is `none`,
so that a pointer is an `Option α`. `Links.Ring links order` says that the pointers run through
exactly the nodes of `order` and back, `prev` against `next`; taking a node out and inserting one
after the head are the usual pointer assignments, and keep it.
-/

/-- The pointers of the nodes and of the head. -/
structure Links (α : Type) where
  next : Option α → Option α
  prev : Option α → Option α

namespace Links

open Function (update update_of_ne update_self)
open List (mem_cons_of_mem mem_cons_self mem_map nodup_cons)

variable {α : Type} {links links' : Links α} {x : α} {a b : Option α} {l r order : List α}

/-- The pointers lead from node `a` through `l` to node `b` and back. -/
def Path (links : Links α) : Option α → List α → Option α → Prop
  | a, [], b => links.next a = b ∧ links.prev b = a
  | a, x :: l, b => links.next a = some x ∧ links.prev (some x) = a ∧ links.Path (some x) l b

/-- The pointers run through the distinct nodes of `order`. -/
structure Ring (links : Links α) (order : List α) : Prop where
  nodup : order.Nodup
  path : links.Path none order none

def empty : Links α where
  next _ := none
  prev _ := none

theorem empty_ring : (empty : Links α).Ring [] :=
  ⟨List.nodup_nil, rfl, rfl⟩

section Assignments

variable [DecidableEq α]

def setNext (links : Links α) (a b : Option α) : Links α :=
  { links with next := update links.next a b }

def setPrev (links : Links α) (a b : Option α) : Links α :=
  { links with prev := update links.prev a b }

/-- `x->next->prev = x->prev; x->prev->next = x->next;` -/
def unlink (links : Links α) (x : α) : Links α :=
  let links := links.setPrev (links.next (some x)) (links.prev (some x))
  links.setNext (links.prev (some x)) (links.next (some x))

/-- `x->next = head.next; x->prev = head; head.next->prev = x; head.next = x;` -/
def pushFront (links : Links α) (x : α) : Links α :=
  let links := links.setNext (some x) (links.next none)
  let links := links.setPrev (some x) none
  let links := links.setPrev (links.next none) (some x)
  links.setNext none (some x)

end Assignments

/-! ## Paths -/

theorem path_append :
    links.Path a (l ++ x :: r) b ↔ links.Path a l (some x) ∧ links.Path (some x) r b := by
  induction l generalizing a with
  | nil => simp only [List.nil_append, Path, and_assoc]
  | cons y l ih => simp only [List.cons_append, Path, ih, and_assoc]

section

variable (path : links.Path a l b)

include path

theorem Path.congr
    (next : ∀ c, c = a ∨ c ∈ l.map some → links'.next c = links.next c)
    (prev : ∀ c, c = b ∨ c ∈ l.map some → links'.prev c = links.prev c) : links'.Path a l b := by
  induction l generalizing a with
  | nil =>
    refine ⟨?_, ?_⟩
    · rw [next a (.inl rfl)]
      exact path.1
    · rw [prev b (.inl rfl)]
      exact path.2
  | cons x l ih =>
    obtain ⟨leaves, enters, rest⟩ := path
    refine ⟨?_, ?_, ih rest ?_ ?_⟩
    · rw [next a (.inl rfl)]
      exact leaves
    · rw [prev (some x) (.inr (mem_cons_self ..))]
      exact enters
    · intro c at_
      rcases at_ with rfl | mem
      · exact next _ (.inr (mem_cons_self ..))
      · exact next c (.inr (mem_cons_of_mem _ mem))
    · intro c at_
      exact prev c (at_.imp_right (mem_cons_of_mem _))

theorem Path.prev_end : links.prev b = a ∨ links.prev b ∈ l.map some := by
  induction l generalizing a with
  | nil => exact .inl path.2
  | cons x l ih =>
    rcases ih path.2.2 with at_ | mem
    · exact .inr (by rw [at_]; exact mem_cons_self ..)
    · exact .inr (mem_cons_of_mem _ mem)

theorem Path.next_start :
    links.next a = b ∨ links.next a ∈ l.map some := by
  cases l with
  | nil => exact .inl path.1
  | cons x l => exact .inr (by rw [path.1]; exact mem_cons_self ..)

theorem Path.reverse :
    Path { next := links.prev, prev := links.next } b l.reverse a := by
  induction l generalizing a with
  | nil => exact ⟨path.2, path.1⟩
  | cons x l ih =>
    obtain ⟨leaves, enters, rest⟩ := path
    rw [List.reverse_cons, path_append]
    exact ⟨ih rest, enters, leaves⟩

theorem Path.prev_next (on : c = a ∨ c ∈ l.map some) :
    links.prev (links.next c) = c := by
  induction l generalizing a with
  | nil =>
    obtain rfl : c = a := on.resolve_right List.not_mem_nil
    rw [path.1, path.2]
  | cons x l ih =>
    obtain ⟨leaves, enters, rest⟩ := path
    rcases on with rfl | mem
    · rw [leaves, enters]
    · exact ih rest (List.mem_cons.mp mem)

end

theorem Ring.prev_next (ring : links.Ring order) (all : ∀ x, x ∈ order) (c : Option α) :
    links.prev (links.next c) = c := by
  apply ring.path.prev_next
  cases c with
  | none => exact .inl rfl
  | some x => exact .inr (List.mem_map_of_mem (all x))

theorem Ring.next_prev (ring : links.Ring order) (all : ∀ x, x ∈ order) (c : Option α) :
    links.next (links.prev c) = c := by
  apply ring.path.reverse.prev_next
  cases c with
  | none => exact .inl rfl
  | some x => exact .inr (List.mem_map_of_mem (List.mem_reverse.mpr (all x)))

/-! ## Walks -/

/-- The nodes that a loop over `link` visits, `fuel` of them at most, until it is back at the
head. -/
def walk (link : Option α → Option α) : Nat → Option α → List α
  | 0, _ => []
  | fuel + 1, a =>
    match link a with
    | none => []
    | some x => x :: walk link fuel (some x)

theorem Path.walk (path : links.Path a l none) (enough : l.length ≤ fuel) :
    walk links.next fuel a = l := by
  induction l generalizing a fuel with
  | nil =>
    cases fuel with
    | zero => rfl
    | succ fuel => simp only [Links.walk, path.1]
  | cons x l ih =>
    cases fuel with
    | zero => cases enough
    | succ fuel =>
      simp only [Links.walk, path.1]
      rw [ih path.2.2 (Nat.le_of_succ_le_succ enough)]

/-! ## Taking a node out and putting it first -/

section Assignments

variable [DecidableEq α]

theorem Path.unlink (before : links.Path a l (some x)) (after : links.Path (some x) r none)
    (nodup : (l ++ x :: r).Nodup) (start : ∀ y ∈ l ++ x :: r, a ≠ some y) :
    (links.unlink x).Path a (l ++ r) none := by
  induction l generalizing a with
  | nil =>
    obtain ⟨leaves, enters⟩ := before
    cases r with
    | nil =>
      obtain ⟨next, prev⟩ := after
      simp [Path, Links.unlink, setNext, setPrev, next, enters]
    | cons y r =>
      obtain ⟨next, prev, rest⟩ := after
      obtain ⟨new, nodup⟩ := nodup_cons.mp nodup
      have apart : some x ≠ some y := by
        rintro ⟨⟩
        exact new (mem_cons_self ..)
      have made : links.unlink x = (links.setPrev (some y) a).setNext a (some y) := by
        simp [Links.unlink, setNext, setPrev, next, enters, update_of_ne apart]
      rw [made]
      refine ⟨update_self .., update_self .., rest.congr ?_ ?_⟩
      · intro c at_
        apply update_of_ne
        rintro rfl
        have mem : c ∈ (y :: r).map some := by simpa using at_
        obtain ⟨z, memZ, rfl⟩ := mem_map.mp mem
        exact start z (mem_cons_of_mem _ memZ) rfl
      · intro c at_
        apply update_of_ne
        rintro rfl
        obtain ⟨z, memZ, same⟩ := mem_map.mp (at_.resolve_left nofun)
        cases same
        exact (nodup_cons.mp nodup).1 memZ
  | cons z l ih =>
    obtain ⟨leaves, enters, rest⟩ := before
    obtain ⟨new, nodup⟩ := nodup_cons.mp nodup
    have later : ∀ y ∈ l ++ x :: r, some z ≠ some y := by
      rintro y mem ⟨⟩
      exact new mem
    refine ⟨?_, ?_, ih rest nodup later⟩
    · -- `x` comes later than `z`, so that `x->prev` is not the node before `z`.
      rw [← leaves]
      have known : (links.setPrev (links.next (some x)) (links.prev (some x))).prev (some x) =
          links.prev (some x) := by
        by_cases self : links.next (some x) = some x
        · rw [self]
          exact update_self ..
        · exact update_of_ne (Ne.symm self) ..
      change update links.next _ _ a = _
      rw [known]
      apply update_of_ne
      rintro rfl
      rcases rest.prev_end with at_ | mem
      · exact start z (mem_cons_self ..) at_
      · obtain ⟨y, memY, same⟩ := mem_map.mp mem
        exact start y (by simp [memY]) same.symm
    · rw [← enters]
      apply update_of_ne
      intro same
      rcases after.next_start with at_ | mem
      · rw [at_] at same
        cases same
      · rw [← same] at mem
        obtain ⟨y, memY, same⟩ := mem_map.mp mem
        cases same
        exact new (by simp [memY])

theorem Ring.unlink (ring : links.Ring (l ++ x :: r)) : (links.unlink x).Ring (l ++ r) := by
  obtain ⟨before, after⟩ := path_append.mp ring.path
  refine ⟨?_, before.unlink after ring.nodup nofun⟩
  exact ring.nodup.sublist ((List.sublist_cons_self x r).append_left l)

theorem Ring.pushFront (ring : links.Ring order) (new : x ∉ order) :
    (links.pushFront x).Ring (x :: order) := by
  have away : links.next none ≠ some x := by
    rcases ring.path.next_start with at_ | mem
    · rw [at_]
      exact nofun
    · obtain ⟨y, memY, same⟩ := mem_map.mp mem
      rw [← same]
      rintro ⟨⟩
      exact new memY
  have made : links.pushFront x =
      { next := update (update links.next (some x) (links.next none)) none (some x)
        prev := update (update links.prev (some x) none)
          (links.next none) (some x) } := by
    simp [Links.pushFront, setNext, setPrev]
  have old : ∀ c ∈ order.map some, c ≠ some x := by
    rintro c mem rfl
    obtain ⟨y, memY, same⟩ := mem_map.mp mem
    cases same
    exact new memY
  rw [made]
  refine ⟨nodup_cons.mpr ⟨new, ring.nodup⟩, ?_, ?_, ?_⟩
  · simp
  · simp [update_of_ne away.symm]
  cases order with
  | nil =>
    obtain ⟨next, prev⟩ := ring.path
    simp [Path, next]
  | cons y order =>
    obtain ⟨next, prev, rest⟩ := ring.path
    simp only [next]
    refine ⟨?_, ?_, rest.congr ?_ ?_⟩
    · simp
    · simp
    · intro c at_
      have mem : c ∈ (y :: order).map some := by simpa using at_
      have node : c ≠ none := by
        rintro rfl
        simp at mem
      simp [update_of_ne node, update_of_ne (old c mem)]
    · intro c at_
      have apart : c ≠ some y := by
        rintro rfl
        obtain ⟨z, memZ, same⟩ := mem_map.mp (at_.resolve_left nofun)
        cases same
        exact (nodup_cons.mp ring.nodup).1 memZ
      have other : c ≠ some x := by
        rcases at_ with rfl | mem
        · exact nofun
        · exact old c (mem_cons_of_mem _ mem)
      simp [update_of_ne apart, update_of_ne other]

theorem Ring.moveFront (ring : links.Ring order) (mem : x ∈ order) :
    ((links.unlink x).pushFront x).Ring (x :: order.erase x) := by
  obtain ⟨l, r, rfl⟩ := List.append_of_mem mem
  have first : x ∉ l ++ r := (List.nodup_middle.mp ring.nodup).notMem
  have erased : (l ++ x :: r).erase x = l ++ r := by
    rw [List.erase_append_right _ fun memL => first (List.mem_append_left _ memL),
      List.erase_cons_head]
  rw [erased]
  exact ring.unlink.pushFront first

theorem ring_of_pushes (nodes : List α) (nodup : nodes.Nodup) :
    (nodes.foldl pushFront empty).Ring nodes.reverse := by
  induction nodes using List.reverseRecOn with
  | nil => exact empty_ring
  | append_singleton nodes x ih =>
    obtain ⟨before, -, apart⟩ := List.nodup_append.mp nodup
    rw [List.foldl_append, List.reverse_append]
    refine (ih before).pushFront fun mem => ?_
    exact apart x (List.mem_reverse.mp mem) x (List.mem_singleton_self x) rfl

end Assignments

end Links
