import Mathlib.Algebra.GroupWithZero.Nat
import Mathlib.Tactic.SplitIfs

/-!
# Blocks of bytes

A block of `n` bytes, read and written as an array of 32-bit little-endian
words, as an array of bits, or by ranges of bytes. The words are natural numbers; a
store keeps the value modulo `2 ^ 32`.
-/

/-- A block of `n` bytes. -/
abbrev Bytes (n : Nat) := Fin n → UInt8

namespace Bytes

variable {n : Nat}

/-- The byte at offset `i`, 0 past the end. -/
def byte (b : Bytes n) (i : Nat) : Nat :=
  if h : i < n then (b ⟨i, h⟩).toNat else 0

def word (b : Bytes n) (i : Nat) : Nat :=
  b.byte (4 * i) + 2 ^ 8 * b.byte (4 * i + 1) + 2 ^ 16 * b.byte (4 * i + 2) +
    2 ^ 24 * b.byte (4 * i + 3)

def setWord (b : Bytes n) (i w : Nat) : Bytes n := fun j =>
  if j.val / 4 = i then UInt8.ofNat (w / 2 ^ (8 * (j.val % 4))) else b j

theorem byte_setWord_other (b : Bytes n) (w : Nat) (other : j / 4 ≠ i) :
    (b.setWord i w).byte j = b.byte j := by
  simp [byte, setWord, other]

theorem byte_setWord_self (b : Bytes n) (w : Nat) (here : j / 4 = i) (inside : j < n) :
    (b.setWord i w).byte j = w / 2 ^ (8 * (j % 4)) % 2 ^ 8 := by
  simp [byte, setWord, here, inside]

theorem word_setWord_self (b : Bytes n) (w : Nat) (inside : 4 * i + 3 < n) :
    (b.setWord i w).word i = w % 2 ^ 32 := by
  unfold word
  rw [byte_setWord_self b w (by omega) (by omega), byte_setWord_self b w (by omega) (by omega),
    byte_setWord_self b w (by omega) (by omega), byte_setWord_self b w (by omega) (by omega)]
  have m0 : 4 * i % 4 = 0 := by omega
  have m1 : (4 * i + 1) % 4 = 1 := by omega
  have m2 : (4 * i + 2) % 4 = 2 := by omega
  have m3 : (4 * i + 3) % 4 = 3 := by omega
  simp only [m0, m1, m2, m3]
  omega

theorem word_setWord_other (b : Bytes n) (w : Nat) (other : j ≠ i) :
    (b.setWord i w).word j = b.word j := by
  unfold word
  rw [byte_setWord_other b w (by omega), byte_setWord_other b w (by omega),
    byte_setWord_other b w (by omega), byte_setWord_other b w (by omega)]

/-! ## Arrays of words -/

/-- The words `i`, `i + 1`, … of the block, `count` of them. -/
def words (b : Bytes n) (i count : Nat) : List Nat :=
  (List.range count).map fun j => b.word (i + j)

def setWords (b : Bytes n) (i : Nat) : List Nat → Bytes n
  | [] => b
  | w :: ws => (b.setWord i w).setWords (i + 1) ws

theorem word_setWords_before (b : Bytes n) (ws : List Nat) (before : j < i) :
    (b.setWords i ws).word j = b.word j := by
  induction ws generalizing b i with
  | nil => rfl
  | cons w ws ih =>
    rw [setWords, ih _ (by omega), word_setWord_other _ _ (by omega)]

theorem word_setWords_after (b : Bytes n) (ws : List Nat) (after : i + ws.length ≤ j) :
    (b.setWords i ws).word j = b.word j := by
  induction ws generalizing b i with
  | nil => rfl
  | cons w ws ih =>
    rw [List.length_cons] at after
    rw [setWords, ih _ (by omega), word_setWord_other _ _ (by omega)]

theorem word_setWords (b : Bytes n) (ws : List Nat) (inside : 4 * (i + ws.length) ≤ n)
    (small : ∀ w ∈ ws, w < 2 ^ 32) (h : j < ws.length) :
    (b.setWords i ws).word (i + j) = ws[j] := by
  induction ws generalizing b i j with
  | nil => simp at h
  | cons w ws ih =>
    simp only [List.length_cons] at inside h
    cases j with
    | zero =>
      change ((b.setWord i w).setWords (i + 1) ws).word i = w
      rw [word_setWords_before _ _ (by omega), word_setWord_self _ _ (by omega),
        Nat.mod_eq_of_lt (small w (by simp))]
    | succ j =>
      have rest := ih (b.setWord i w) (i := i + 1) (j := j) (by omega)
        (fun v mem => small v (by simp [mem])) (by omega)
      rw [setWords, ← Nat.add_assoc, Nat.add_right_comm, rest]
      rfl

theorem words_setWords (b : Bytes n) (ws : List Nat) (inside : 4 * (i + ws.length) ≤ n)
    (small : ∀ w ∈ ws, w < 2 ^ 32) : (b.setWords i ws).words i ws.length = ws := by
  refine List.ext_getElem (by simp [words]) fun j h _ => ?_
  have inRange : j < ws.length := by simpa [words] using h
  simp only [words, List.getElem_map, List.getElem_range]
  exact word_setWords b ws inside small inRange

/-! ## Bits -/

/-- Bit `i` of the block, from the lowest bit of its first byte on. -/
def bit (b : Bytes n) (i : Nat) : Bool := (b.byte (i / 8)).testBit (i % 8)

def setBit (b : Bytes n) (i : Nat) (v : Bool) : Bytes n := fun j =>
  let m : UInt8 := UInt8.ofNat (2 ^ (i % 8))
  if j.val = i / 8 then if v then b j ||| m else b j &&& ~~~m else b j

theorem bit_eq (b : Bytes n) (inside : i / 8 < n) :
    b.bit i = (b ⟨i / 8, inside⟩).toBitVec.getLsbD (i % 8) := by
  unfold bit byte
  rw [dif_pos inside]
  rfl

theorem mask_bit (hk : k < 8) : (UInt8.ofNat (2 ^ k)).toBitVec.getLsbD j = decide (k = j) := by
  have small : 2 ^ k < 2 ^ 8 := Nat.pow_lt_pow_right (by decide) hk
  change (UInt8.ofNat (2 ^ k)).toNat.testBit j = _
  rw [UInt8.toNat_ofNat', Nat.mod_eq_of_lt small, Nat.testBit_two_pow]

theorem bit_setBit_self (b : Bytes n) (v : Bool) (inside : i / 8 < n) :
    (b.setBit i v).bit i = v := by
  have small : i % 8 < 8 := by omega
  have mask := mask_bit (j := i % 8) small
  rw [bit_eq _ inside, setBit, if_pos rfl]
  cases v with
  | true => simp only [if_true, UInt8.toBitVec_or, BitVec.getLsbD_or, mask,
      decide_true, Bool.or_true]
  | false =>
    simp only [Bool.false_eq_true, if_false, UInt8.toBitVec_and, UInt8.toBitVec_not,
      BitVec.getLsbD_and, BitVec.getLsbD_not, mask, decide_true, Bool.not_true, Bool.and_false]

theorem bit_setBit_other (b : Bytes n) (v : Bool) (other : j ≠ i) :
    (b.setBit i v).bit j = b.bit j := by
  by_cases inside : j / 8 < n
  · have small : j % 8 < 8 := by omega
    rw [bit_eq _ inside, bit_eq _ inside, setBit]
    dsimp only
    split
    · next same =>
      have differ : i % 8 ≠ j % 8 := by omega
      have mask := mask_bit (k := i % 8) (j := j % 8) (by omega)
      rw [decide_eq_false differ] at mask
      cases v with
      | true => simp only [if_true, UInt8.toBitVec_or, BitVec.getLsbD_or, mask, Bool.or_false]
      | false =>
        simp only [Bool.false_eq_true, if_false, UInt8.toBitVec_and, UInt8.toBitVec_not,
          BitVec.getLsbD_and, BitVec.getLsbD_not, mask, small, decide_true, Bool.not_false,
          Bool.and_true]
    · rfl
  · unfold bit byte
    rw [dif_neg inside, dif_neg inside]

/-! ## Ranges of bytes -/

/-- The `m` bytes from `off` on. -/
def slice (b : Bytes n) (off m : Nat) : List UInt8 :=
  (List.range m).map fun j => UInt8.ofNat (b.byte (off + j))

/-- Replace the `m` bytes from `off` on by `f 0`, `f 1`, … -/
def fill (b : Bytes n) (off m : Nat) (f : Nat → UInt8) : Bytes n := fun j =>
  if off ≤ j.val ∧ j.val < off + m then f (j.val - off) else b j

end Bytes
