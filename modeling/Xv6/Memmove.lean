import Mathlib.Algebra.GroupWithZero.Nat
import Mathlib.Logic.Function.Basic

/-!
# `memmove`

The kernel's `memmove` (`kernel/string.c`) and the user library's (`user/ulib.c`). Both copy upwards
or downwards, one byte at a time, and decide between the two by different comparisons of the
pointers. `moved` is the memory that either has to leave behind, whatever the ranges have in common.
-/

namespace Xv6.Memmove

abbrev Addr := BitVec 64
abbrev Memory := Addr → UInt8

/-- `while(n-- > 0) *d++ = *s++;` -/
def copyUp : Nat → Memory → Addr → Addr → Memory
  | 0, mem, _, _ => mem
  | n + 1, mem, d, s => copyUp n (Function.update mem d (mem s)) (d + 1) (s + 1)

/-- `while(n-- > 0) *--d = *--s;` -/
def copyDown : Nat → Memory → Addr → Addr → Memory
  | 0, mem, _, _ => mem
  | n + 1, mem, d, s => copyDown n (Function.update mem (d - 1) (mem (s - 1))) (d - 1) (s - 1)

/-- The kernel's `memmove`: the memory after it, and what it returns. -/
def memmove (mem : Memory) (dst src : Addr) (n : UInt32) : Memory × Addr :=
  let count := BitVec.ofNat 64 n.toNat
  if n = 0 then (mem, dst)
  else if src < dst ∧ src + count > dst then
    (copyDown n.toNat mem (dst + count) (src + count), dst)
  else (copyUp n.toNat mem dst src, dst)

/-- The user library's `memmove`, in which `n` is an `int`. -/
def ulibMemmove (mem : Memory) (vdst vsrc : Addr) (n : Int32) : Memory × Addr :=
  let count := BitVec.ofInt 64 n.toInt
  if vsrc > vdst then (copyUp n.toInt.toNat mem vdst vsrc, vdst)
  else (copyDown n.toInt.toNat mem (vdst + count) (vsrc + count), vdst)

/-- The `n` bytes at `dst` are those that were at `src`, and all others are as they were. -/
def moved (mem : Memory) (dst src : Addr) (n : Nat) : Memory := fun a =>
  if (a - dst).toNat < n then mem (src + (a - dst)) else mem a

variable {mem : Memory} {dst src : Addr} {n : Nat}

/-- Upwards, every byte is read before it is overwritten unless `dst` lies inside the source. -/
theorem copyUp_eq_moved (size : n ≤ 2 ^ 64) (apart : dst = src ∨ n ≤ (dst - src).toNat) :
    copyUp n mem dst src = moved mem dst src n := by
  induction n generalizing mem dst src with
  | zero => rfl
  | succ n ih =>
    rw [copyUp, ih (by omega) (by bv_omega)]
    funext a
    have source : src + 1 + (a - (dst + 1)) = src + (a - dst) := by bv_omega
    simp only [moved, source, Function.update_apply]
    by_cases here : a = dst
    · rw [if_neg (by bv_omega), if_pos here, if_pos (by bv_omega), here, BitVec.sub_self,
        BitVec.add_zero]
    · by_cases inside : (a - dst).toNat < n + 1
      · rw [if_pos (by bv_omega), if_neg (by bv_omega), if_pos inside]
      · rw [if_neg (by bv_omega), if_neg here, if_neg inside]

/-- Downwards, from the ends of both ranges, unless `src` lies inside the destination. -/
theorem copyDown_eq_moved (size : n ≤ 2 ^ 64) (apart : dst = src ∨ n ≤ (src - dst).toNat) :
    copyDown n mem (dst + BitVec.ofNat 64 n) (src + BitVec.ofNat 64 n) = moved mem dst src n := by
  induction n generalizing mem with
  | zero => rfl
  | succ n ih =>
    have last (p : Addr) : p + BitVec.ofNat 64 (n + 1) - 1 = p + BitVec.ofNat 64 n := by bv_omega
    rw [copyDown, last, last, ih (by omega) (apart.imp_right Nat.le_of_succ_le)]
    funext a
    simp only [moved, Function.update_apply]
    by_cases here : a = dst + BitVec.ofNat 64 n
    · have offset : a - dst = BitVec.ofNat 64 n := by bv_omega
      rw [offset, if_neg (by bv_omega), if_pos here, if_pos (by bv_omega)]
    · by_cases inside : (a - dst).toNat < n
      · rw [if_pos inside, if_neg (by bv_omega), if_pos (by omega)]
      · rw [if_neg inside, if_neg here, if_neg (by bv_omega)]

/-- The ranges do not wrap around the end of memory. -/
def Fits (dst src : Addr) (n : Nat) : Prop :=
  dst.toNat + n ≤ 2 ^ 64 ∧ src.toNat + n ≤ 2 ^ 64

theorem memmove_eq_moved {n : UInt32} (fits : Fits dst src n.toNat) :
    memmove mem dst src n = (moved mem dst src n.toNat, dst) := by
  obtain ⟨_, _⟩ := fits
  simp only [memmove]
  split
  · next none => subst none; rfl
  · split
    · rw [copyDown_eq_moved (by omega) (by bv_omega)]
    · rw [copyUp_eq_moved (by omega) (by bv_omega)]

theorem ulibMemmove_eq_moved {n : Int32} (fits : Fits dst src n.toInt.toNat) :
    ulibMemmove mem dst src n = (moved mem dst src n.toInt.toNat, dst) := by
  obtain ⟨_, _⟩ := fits
  simp only [ulibMemmove]
  split
  · rw [copyUp_eq_moved (by omega) (by bv_omega)]
  · by_cases some : 0 ≤ n.toInt
    · have count : BitVec.ofInt 64 n.toInt = BitVec.ofNat 64 n.toInt.toNat := by
        rw [← BitVec.ofInt_natCast, Int.toNat_of_nonneg some]
      rw [count, copyDown_eq_moved (by omega) (by bv_omega)]
    · rw [Int.toNat_eq_zero.mpr (by omega)]
      rfl

/-- `mem'` is `mem` with the `n` bytes at `src` copied to `dst`. -/
def Copied (mem mem' : Memory) (dst src : Addr) (n : Nat) : Prop :=
  (∀ i < n, mem' (dst + BitVec.ofNat 64 i) = mem (src + BitVec.ofNat 64 i)) ∧
  ∀ a, (∀ i < n, a ≠ dst + BitVec.ofNat 64 i) → mem' a = mem a

theorem moved_copied (size : n ≤ 2 ^ 64) : Copied mem (moved mem dst src n) dst src n := by
  constructor
  · intro i below
    have offset : dst + BitVec.ofNat 64 i - dst = BitVec.ofNat 64 i := by bv_omega
    rw [moved, offset, if_pos (by bv_omega)]
  · intro a outside
    refine if_neg fun inside => outside _ inside ?_
    rw [BitVec.ofNat_toNat, BitVec.setWidth_eq]
    bv_omega

/-- **Both copy under any overlap**, and they agree wherever both take the number of bytes. A
negative `int` is no number of bytes, and the user library then copies nothing. -/
theorem memmove_copies (mem : Memory) (dst src : Addr) :
    (∀ n : UInt32, Fits dst src n.toNat →
      Copied mem (memmove mem dst src n).1 dst src n.toNat) ∧
    (∀ n : Int32, Fits dst src n.toInt.toNat →
      Copied mem (ulibMemmove mem dst src n).1 dst src n.toInt.toNat) ∧
    ∀ (n : UInt32) (m : Int32), n.toNat = m.toInt → Fits dst src n.toNat →
      memmove mem dst src n = ulibMemmove mem dst src m := by
  refine ⟨fun n fits => ?_, fun n fits => ?_, fun n m same fits => ?_⟩
  · rw [memmove_eq_moved fits]
    exact moved_copied (by have := fits.1; omega)
  · rw [ulibMemmove_eq_moved fits]
    exact moved_copied (by have := fits.1; omega)
  · have count : n.toNat = m.toInt.toNat := by omega
    rw [memmove_eq_moved fits, ulibMemmove_eq_moved (count ▸ fits), count]

/-- Four bytes move up by two. -/
theorem memmove_copies_overlapping :
    Copied (·.toNat.toUInt8) (memmove (·.toNat.toUInt8) 2 0 4).1 2 0 4 ∧
    Copied (·.toNat.toUInt8) (ulibMemmove (·.toNat.toUInt8) 2 0 4).1 2 0 4 ∧
    memmove (·.toNat.toUInt8) 2 0 4 = ulibMemmove (·.toNat.toUInt8) 2 0 4 := by
  have fits : Fits 2 0 4 := ⟨by decide, by decide⟩
  have ⟨kernel, user, agree⟩ := memmove_copies (·.toNat.toUInt8) 2 0
  exact ⟨kernel 4 fits, user 4 fits, agree 4 4 (by decide) fits⟩

end Xv6.Memmove
