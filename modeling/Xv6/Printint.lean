import Mathlib.Algebra.GroupWithZero.Nat

/-!
# `printint`

The kernel's `printint` (`kernel/printf.c`) and the user library's (`user/printf.c`). They are one
algorithm with two tables of digits: the digits are stored in `buf` from the last one on, then the
sign, and `buf` is written out backwards.
-/

namespace Xv6.Printint

/-- The digits of `x`, stored in front of `buf[i - 1], .., buf[0]`. There is room for so many more
characters in `buf`; a store outside it is `none`. -/
def digitLoop (digits : List Char) (base : UInt64) : Nat → List Char → UInt64 → Option (List Char)
  | 0, _, _ => none
  | room + 1, buf, x => do
    let c ← digits[(x % base).toNat]?
    if x / base = 0 then some (c :: buf) else digitLoop digits base room (c :: buf) (x / base)

/-- What is written, from the first character on. -/
def print (digits : List Char) (xx : Int64) (base : Int32) (sign : Bool) : Option (List Char) := do
  let neg := sign && xx < 0
  -- the negation is modulo 2^64
  let x := if neg then (-xx).toUInt64 else xx.toUInt64
  let buf ← digitLoop digits base.toInt64.toUInt64 20 [] x
  if neg then if buf.length < 20 then some ('-' :: buf) else none
  else some buf

/-- The kernel's `printint`, by the calls of `consputc`. -/
def printint : Int64 → Int32 → Bool → Option (List Char) :=
  print "0123456789abcdef".toList

/-- The user library's `printint`, by the calls of `putc`. -/
def ulibPrintint (fd : Int32) (xx : Int64) (base : Int32) (sgn : Bool) :
    Option (List (Int32 × Char)) :=
  (print "0123456789ABCDEF".toList xx base sgn).map (·.map (fd, ·))

def value (xx : Int64) (sign : Bool) : Int :=
  if sign then xx.toInt else xx.toUInt64.toNat

/-- The standard numeral. -/
def numeral (letter : Char → Char) (base : Nat) (v : Int) : List Char :=
  (if v < 0 then ['-'] else []) ++ (base.toDigits v.natAbs).map letter

def figure (c : Char) : Nat :=
  if c ≤ '9' then c.toNat - 48 else if c ≤ 'F' then c.toNat - 55 else c.toNat - 87

def readDigits (base : Nat) (s : List Char) : Nat :=
  s.foldl (fun n c => n * base + figure c) 0

/-- The number that a numeral is read as. -/
def read (base : Nat) (s : List Char) : Int :=
  if s.head? = some '-' then -readDigits base s.tail else readDigits base s

section Digits

variable {digits : List Char} {letter : Char → Char}

theorem digitLoop_eq {b : UInt64} {room : Nat} {buf : List Char} {x : UInt64}
    (table : ∀ d < 16, digits[d]? = some (letter d.digitChar)) (two : 2 ≤ b.toNat)
    (le : b.toNat ≤ 16) (fits : x.toNat < b.toNat ^ (room + 1)) :
    digitLoop digits b (room + 1) buf x =
      some ((Nat.toDigits b.toNat x.toNat).map letter ++ buf) := by
  have last (x : UInt64) : x / b = 0 ↔ x.toNat < b.toNat := by
    rw [← UInt64.toNat_inj, UInt64.toNat_div]
    exact Nat.div_eq_zero_iff.trans (or_iff_right (by omega))
  induction room generalizing buf x with
  | zero =>
    rw [Nat.pow_one] at fits
    simp [digitLoop, (last x).mpr fits, Nat.toDigits_of_lt_base fits, Nat.mod_eq_of_lt fits,
      table x.toNat (by omega)]
  | succ room ih =>
    have digit : x.toNat % b.toNat < b.toNat := Nat.mod_lt _ (by omega)
    rw [digitLoop, UInt64.toNat_mod, table _ (by omega), Option.bind_eq_bind, Option.bind_some]
    by_cases small : x.toNat < b.toNat
    · rw [if_pos ((last x).mpr small), Nat.toDigits_of_lt_base small, Nat.mod_eq_of_lt small]
      rfl
    · have rest : (x / b).toNat < b.toNat ^ (room + 1) := by
        rw [UInt64.toNat_div]
        exact Nat.div_lt_of_lt_mul (by rwa [Nat.pow_succ'] at fits)
      rw [if_neg (mt (last x).mp small), ih rest, UInt64.toNat_div,
        Nat.toDigits_of_base_le two (Nat.le_of_not_lt small), List.map_append, List.append_assoc]
      rfl

variable (letters : ∀ d < 16, figure (letter d.digitChar) = d ∧ letter d.digitChar ≠ '-')
include letters

theorem readDigits_toDigits {base : Nat} (two : 2 ≤ base) (le : base ≤ 16) (n : Nat) :
    readDigits base ((base.toDigits n).map letter) = n ∧ '-' ∉ (base.toDigits n).map letter := by
  induction n using Nat.strongRecOn with
  | ind n ih =>
    by_cases small : n < base
    · have digit := letters n (by omega)
      rw [Nat.toDigits_of_lt_base small]
      simpa [readDigits] using ⟨digit.1, digit.2.symm⟩
    · obtain ⟨before, unsigned⟩ := ih (n / base) (Nat.div_lt_self (by omega) two)
      have small : n % base < base := Nat.mod_lt _ (by omega)
      have digit := letters (n % base) (by omega)
      rw [Nat.toDigits_of_base_le two (by omega), List.map_append]
      constructor
      · rw [readDigits, List.foldl_append, ← readDigits, before, List.map_singleton,
          List.foldl_cons, digit.1, List.foldl_nil, Nat.div_add_mod']
      · simpa using ⟨by simpa using unsigned, digit.2.symm⟩

theorem read_numeral {base : Nat} (two : 2 ≤ base) (le : base ≤ 16) (v : Int) :
    read base (numeral letter base v) = v := by
  obtain ⟨back, unsigned⟩ := readDigits_toDigits letters two le v.natAbs
  unfold read numeral
  by_cases neg : v < 0
  · rw [if_pos neg, List.singleton_append, List.head?_cons, if_pos rfl, List.tail_cons, back]
    omega
  · have head : ((base.toDigits v.natAbs).map letter).head? ≠ some '-' := fun head =>
      unsigned (List.mem_of_mem_head? head)
    rw [if_neg neg, List.nil_append, if_neg head, back]
    omega

end Digits

theorem magnitude (xx : Int64) (sign : Bool) :
    (if sign && xx < 0 then (-xx).toUInt64 else xx.toUInt64).toNat = (value xx sign).natAbs := by
  cases sign with
  | false => rfl
  | true =>
    have toInt := BitVec.toInt_eq_toNat_cond xx.toBitVec
    change _ = xx.toBitVec.toInt.natAbs
    by_cases neg : xx < 0
    · have below : xx.toBitVec.toInt < 0 := Int64.lt_iff_toInt_lt.mp neg
      rw [Bool.true_and, decide_eq_true neg, if_pos rfl]
      change (-xx.toBitVec).toNat = _
      rw [BitVec.toNat_neg]
      split at toInt <;> omega
    · have above : ¬xx.toBitVec.toInt < 0 := fun below => neg (Int64.lt_iff_toInt_lt.mpr below)
      rw [Bool.true_and, decide_eq_false neg, if_neg nofun]
      change xx.toBitVec.toNat = _
      split at toInt <;> omega

theorem value_neg (xx : Int64) (sign : Bool) : (sign && xx < 0) = decide (value xx sign < 0) := by
  cases sign with
  | false => simp [value]
  | true => exact decide_eq_decide.mpr Int64.lt_iff_toInt_lt

theorem ofInt_value (xx : Int64) (sign : Bool) : Int64.ofInt (value xx sign) = xx := by
  cases sign with
  | false => exact Int64.ofInt_eq_ofNat.trans (Int64.ofNat_bitVecToNat xx.toBitVec)
  | true => exact Int64.ofInt_toInt xx

/-- `s` fits into `buf`, is the standard numeral of `xx`, and is read back as `xx`. -/
def Exact (letter : Char → Char) (xx : Int64) (base : Nat) (sign : Bool) (s : List Char) : Prop :=
  s.length ≤ 20 ∧ s = numeral letter base (value xx sign) ∧ read base s = value xx sign ∧
    Int64.ofInt (read base s) = xx

theorem print_exact {digits : List Char} {letter : Char → Char} {base : Int32} {sign : Bool}
    (table : ∀ d < 16, digits[d]? = some (letter d.digitChar))
    (letters : ∀ d < 16, figure (letter d.digitChar) = d ∧ letter d.digitChar ≠ '-') (xx : Int64)
    (bases : base = 10 ∨ base = 16) (signed : sign = true → base = 10) :
    ∃ s, print digits xx base sign = some s ∧ Exact letter xx base.toInt.toNat sign s := by
  obtain ⟨number, two, le, all⟩ : base.toInt64.toUInt64.toNat = base.toInt.toNat ∧
      2 ≤ base.toInt.toNat ∧ base.toInt.toNat ≤ 16 ∧ 2 ^ 64 ≤ base.toInt.toNat ^ 20 := by
    rcases bases with rfl | rfl <;> decide
  have fits : (value xx sign).natAbs < base.toInt.toNat ^ 20 := by
    rw [← magnitude]
    exact Nat.lt_of_lt_of_le (UInt64.toNat_lt _) all
  -- a negative number has at most 19 digits
  have short (neg : value xx sign < 0) :
      (base.toInt.toNat.toDigits (value xx sign).natAbs).length < 20 := by
    cases sign with
    | false => exact absurd neg (Int.not_lt.mpr (Int.natCast_nonneg _))
    | true =>
      have least : -2 ^ 63 ≤ xx.toInt := xx.minValue_le_toInt
      rw [signed rfl]
      refine Nat.lt_succ_of_le ((Nat.length_toDigits_le_iff (by decide) (by decide)).mpr ?_)
      change xx.toInt.natAbs < 10 ^ 19
      change xx.toInt < 0 at neg
      omega
  have back := read_numeral letters two le (value xx sign)
  refine ⟨numeral letter base.toInt.toNat (value xx sign), ?_, ?_, rfl, back, ?_⟩
  · rw [print, digitLoop_eq table (number ▸ two) (number ▸ le) (by rwa [magnitude, number]),
      magnitude, number, Option.bind_eq_bind, Option.bind_some, List.append_nil, value_neg, numeral]
    by_cases neg : value xx sign < 0
    · have few := short neg
      rw [decide_eq_true neg, if_pos rfl, if_pos (by simpa using few), if_pos neg]
      rfl
    · rw [decide_eq_false neg, if_neg nofun, if_neg neg]
      rfl
  · rw [numeral, List.length_append, List.length_map]
    by_cases neg : value xx sign < 0
    · have few := short neg
      rw [if_pos neg, List.length_singleton]
      omega
    · rw [if_neg neg, List.length_nil, Nat.zero_add]
      exact (Nat.length_toDigits_le_iff two (by decide)).mpr fits
  · rw [back, ofInt_value]

/-- **Numbers are printed exactly**, by the kernel and by the user library. -/
theorem printint_exact (fd : Int32) (xx : Int64) (base : Int32) (sign : Bool)
    (bases : base = 10 ∨ base = 16) (signed : sign = true → base = 10) :
    (∃ s, printint xx base sign = some s ∧ Exact id xx base.toInt.toNat sign s) ∧
    ∃ s, ulibPrintint fd xx base sign = some (s.map (fd, ·)) ∧
      Exact Char.toUpper xx base.toInt.toNat sign s := by
  constructor
  · exact print_exact (by decide) (by decide) xx bases signed
  · obtain ⟨s, run, exact⟩ : ∃ s, print "0123456789ABCDEF".toList xx base sign = some s ∧
        Exact Char.toUpper xx base.toInt.toNat sign s :=
      print_exact (by decide) (by decide) xx bases signed
    exact ⟨s, by rw [ulibPrintint, run]; rfl, exact⟩

/-- The least number fills the buffer. -/
theorem printint_exact_least :
    ∃ s, printint (-9223372036854775808) 10 true = some s ∧
      Exact id (-9223372036854775808) 10 true s :=
  (printint_exact 1 (-9223372036854775808) 10 true (.inl rfl) fun _ => rfl).1

end Xv6.Printint
