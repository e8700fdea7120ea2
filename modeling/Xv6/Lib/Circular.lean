import Mathlib.Algebra.GroupWithZero.Nat
import Mathlib.Logic.Function.Basic
import Mathlib.Tactic.Cases

/-!
# Circular buffers with counters that wrap around

A buffer is an array of `N` elements, and its ends are 32-bit counters that only ever are
compared and counted up or down; element `i` is at index `i % N`. Two counters `i` and `j`
name the window of the elements from `i` up to `j`, over the end of the array and over
`2 ^ 32`.

As `N` divides `2 ^ 32`, the elements of a window of at most `N` are at different indices.
So an element can be appended to a window that is not full, and what is in any window in
front of it stays the same.
-/

namespace Circular

open Function
open UInt32 (toNat_add toNat_one toNat_sub)

variable {α : Type} {N : Nat} [NeZero N]

/-- The index of element `i`. -/
def slot (N : Nat) [NeZero N] (i : UInt32) : Fin N := Fin.ofNat N i.toNat

/-- The `n` elements from `i` on. -/
def stretch (data : Fin N → α) (i : UInt32) : Nat → List α
  | 0 => []
  | n + 1 => data (slot N i) :: stretch data (i + 1) n

/-- How many elements there are from `i` up to `j`. -/
def size (i j : UInt32) : Nat := (j - i).toNat

/-- The elements from `i` up to `j`. -/
def window (data : Fin N → α) (i j : UInt32) : List α := stretch data i (size i j)

variable {data : Fin N → α} {i j k : UInt32} {x : α} {m n : Nat}

/-! ## Counters -/

theorem size_self (i : UInt32) : size i i = 0 := by
  unfold size
  rw [UInt32.sub_self]
  rfl

theorem size_eq_zero : size i j = 0 ↔ i = j := by
  unfold size
  have := i.toNat_lt
  have := j.toNat_lt
  rw [← UInt32.toNat_inj, toNat_sub]
  omega

theorem size_succ (room : size i j + 1 < 2 ^ 32) : size i (j + 1) = size i j + 1 := by
  unfold size at *
  simp only [toNat_sub, toNat_add, toNat_one] at *
  omega

theorem size_of_ne (ne : i ≠ j) : size i j = size (i + 1) j + 1 := by
  have positive : size i j ≠ 0 := fun zero => ne (size_eq_zero.mp zero)
  unfold size at *
  have := i.toNat_lt
  simp only [toNat_sub, toNat_add, toNat_one] at *
  omega

theorem size_pred (ne : i ≠ j) : size i j = size i (j - 1) + 1 := by
  have positive : size i j ≠ 0 := fun zero => ne (size_eq_zero.mp zero)
  unfold size at *
  simp only [toNat_sub, toNat_one] at *
  omega

theorem size_add (room : size i j + size j k < 2 ^ 32) : size i k = size i j + size j k := by
  unfold size at *
  have := j.toNat_lt
  simp only [toNat_sub] at *
  omega

theorem eq_add_of_size (is : size i j = n) : j = i + UInt32.ofNat n := by
  subst is
  unfold size
  rw [UInt32.ofNat_toNat, UInt32.add_comm, UInt32.sub_add_cancel]

/-! ## Indices -/

theorem slot_add (dvd : N ∣ 2 ^ 32) (i : UInt32) (n : Nat) :
    (slot N (i + UInt32.ofNat n)).val = (i.toNat + n) % N := by
  unfold slot
  rw [Fin.val_ofNat, toNat_add, UInt32.toNat_ofNat', Nat.add_mod_mod,
    Nat.mod_mod_of_dvd _ dvd]

theorem slot_ne (dvd : N ∣ 2 ^ 32) (less : m < n) (inside : n < N + m) :
    slot N (i + UInt32.ofNat m) ≠ slot N (i + UInt32.ofNat n) := by
  intro same
  have same := congrArg Fin.val same
  rw [slot_add dvd, slot_add dvd] at same
  have apart : (i.toNat + n - (i.toNat + m)) % N = 0 := Nat.sub_mod_eq_zero_of_mod_eq same.symm
  rw [Nat.mod_eq_of_lt (by omega)] at apart
  omega

/-! ## Stretches -/

@[simp] theorem length_stretch (data : Fin N → α) (i : UInt32) (n : Nat) :
    (stretch data i n).length = n := by
  induction n generalizing i with
  | zero => rfl
  | succ n ih => rw [stretch, List.length_cons, ih]

theorem stretch_add (data : Fin N → α) (i : UInt32) (m n : Nat) :
    stretch data i (m + n) = stretch data i m ++ stretch data (i + UInt32.ofNat m) n := by
  induction m generalizing i with
  | zero =>
    rw [Nat.zero_add, stretch, List.nil_append, show UInt32.ofNat 0 = 0 from rfl, UInt32.add_zero]
  | succ m ih =>
    have next : i + UInt32.ofNat (m + 1) = i + 1 + UInt32.ofNat m := by
      rw [UInt32.ofNat_add, UInt32.add_assoc, UInt32.add_comm 1]
      rfl
    rw [Nat.add_right_comm, stretch, stretch, ih, List.cons_append, next]

theorem stretch_update (dvd : N ∣ 2 ^ 32) (before : m ≤ n) (room : n < N) :
    stretch (update data (slot N (i + UInt32.ofNat n)) x) i m = stretch data i m := by
  induction m with
  | zero => rfl
  | succ m ih =>
    have other : slot N (i + UInt32.ofNat m) ≠ slot N (i + UInt32.ofNat n) :=
      slot_ne dvd before (by omega)
    rw [stretch_add, stretch_add, ih (by omega)]
    simp only [stretch, update_of_ne other]

/-! ## Windows -/

theorem length_window (data : Fin N → α) (i j : UInt32) : (window data i j).length = size i j :=
  length_stretch data i _

theorem window_self (data : Fin N → α) (i : UInt32) : window data i i = [] := by
  unfold window
  rw [size_self]
  rfl

theorem window_of_ne (ne : i ≠ j) : window data i j = data (slot N i) :: window data (i + 1) j := by
  unfold window
  rw [size_of_ne ne]
  rfl

theorem window_append (room : size i j + size j k < 2 ^ 32) :
    window data i k = window data i j ++ window data j k := by
  unfold window
  rw [size_add room, stretch_add, ← eq_add_of_size rfl]

theorem window_pred (ne : i ≠ j) :
    window data i j = window data i (j - 1) ++ [data (slot N (j - 1))] := by
  have one : size (j - 1) j = 1 := by
    have next := size_succ (i := j - 1) (j := j - 1) (by rw [size_self]; decide)
    rwa [UInt32.sub_add_cancel, size_self] at next
  have bound : size i j < 2 ^ 32 := (j - i).toNat_lt
  rw [window_append (j := j - 1) (by rw [one, ← size_pred ne]; exact bound)]
  unfold window
  rw [one, stretch, stretch]

theorem window_update (dvd : N ∣ 2 ^ 32) (before : size i j + size j k < N) (small : N < 2 ^ 32) :
    window (update data (slot N k) x) i j = window data i j := by
  have far : size i k = size i j + size j k := size_add (by omega)
  rw [eq_add_of_size far]
  exact stretch_update dvd (Nat.le_add_right _ _) before

theorem window_push (dvd : N ∣ 2 ^ 32) (small : N < 2 ^ 32) (room : size i j < N) :
    window (update data (slot N j) x) i (j + 1) = window data i j ++ [x] := by
  have one : size j (j + 1) = 1 := by
    rw [size_succ (by rw [size_self]; decide), size_self]
  rw [window_append (j := j) (by omega), window_update dvd (by rwa [size_self]) small]
  unfold window
  rw [one, stretch, stretch, update_self]

end Circular
