import Mathlib.Algebra.Group.Int.Defs
import Mathlib.Algebra.Group.Nat.Defs

/-!
# Decimal numbers in Bash

Bash computes with 64-bit integers in two's complement. A decimal number is read digit by digit, so
one that is too large is not refused: it is what is left of it in 64 bits.

Main statements: `number?_toString`, what becomes of a natural number; `agrees_of_lt`, that below
`2 ^ 63` it is the number that was meant; and `turns_of_le`, that it is a negative one from there
on.
-/

namespace ShellCompletion.Script.Bash

/-! ### Reading a number -/

/-- A number that is not zero is written without a zero in front: that would mark octal digits. -/
def isDecimal (cs : List Char) : Bool :=
  cs != [] && cs.all Char.isDigit && (cs == ['0'] || cs.head? != some '0')

/-- The number that Bash reads. -/
def number? (cs : List Char) : Option Int64 :=
  if isDecimal cs then
    some (cs.foldl (fun read c => read * 10 + .ofNat (c.toNat - '0'.toNat)) 0)
  else none

/-- The digits are added up in 64 bits as they would be without a bound. -/
theorem foldl_eq_ofDigitChars (cs : List Char) (n : Nat) :
    cs.foldl (fun read c => read * 10 + .ofNat (c.toNat - '0'.toNat)) (Int64.ofNat n) =
      Int64.ofNat (Nat.ofDigitChars 10 cs n) := by
  induction cs generalizing n with
  | nil => rw [List.foldl_nil, Nat.ofDigitChars_nil]
  | cons c cs ih =>
    have hstep : Int64.ofNat n * 10 + Int64.ofNat (c.toNat - '0'.toNat) =
        Int64.ofNat (10 * n + (c.toNat - '0'.toNat)) := by
      rw [Int64.ofNat_add, Nat.mul_comm, Int64.ofNat_mul]
      rfl
    rw [List.foldl_cons, hstep, ih, Nat.ofDigitChars_cons]

/-- The digits of a positive number do not begin with a zero. -/
theorem head?_toDigits_ne_zero {n : Nat} (h : 0 < n) : (Nat.toDigits 10 n).head? ≠ some '0' := by
  induction n using Nat.strongRecOn with
  | ind n ih =>
    by_cases hn : n < 10
    · rw [Nat.toDigits_of_lt_base hn]
      simpa using Nat.pos_iff_ne_zero.mp h
    · have hfront := ih (n / 10) (by omega) (by omega)
      obtain ⟨c, cs, hcs⟩ := List.exists_cons_of_ne_nil (@Nat.toDigits_ne_nil (n / 10) 10)
      rw [Nat.toDigits_of_base_le (by decide) (by omega), hcs]
      rwa [hcs] at hfront

/-- Bash takes the digits of a number for decimal ones. -/
theorem isDecimal_toDigits (n : Nat) : isDecimal (Nat.toDigits 10 n) = true := by
  have hdigits : (Nat.toDigits 10 n).all Char.isDigit = true := by
    rw [List.all_eq_true]
    exact fun c hc => Nat.isDigit_of_mem_toDigits (by decide) (by decide) hc
  rw [isDecimal, hdigits]
  rcases Nat.eq_zero_or_pos n with rfl | hpos
  · decide
  · simpa using Or.inr (head?_toDigits_ne_zero hpos)

/-- Bash reads the digits of a number, cut down to 64 bits. -/
theorem number?_toString (n : Nat) : number? (toString n).toList = some (Int64.ofNat n) := by
  have hdigits := foldl_eq_ofDigitChars (Nat.toDigits 10 n) 0
  rw [Nat.ofDigitChars_ten_toDigits] at hdigits
  rw [Nat.toString_eq_ofList_toDigits, String.toList_ofList, number?, isDecimal_toDigits, if_pos rfl]
  exact congrArg some hdigits

/-! ### Comparing it -/

/-- The number that was read is the one that was meant, and compared with any count it decides as
that one would. -/
structure Agrees (read : Int64) (value : Nat) : Prop where
  toInt_eq : read.toInt = value
  lt_iff : ∀ count < 2 ^ 63, read < Int64.ofNat count ↔ value < count
  le_iff : ∀ count < 2 ^ 63, read ≤ Int64.ofNat count ↔ value ≤ count

/-- A number below the sign bit is read as it was meant. -/
theorem agrees_of_lt {value : Nat} (h : value < 2 ^ 63) : Agrees (Int64.ofNat value) value where
  toInt_eq := Int64.toInt_ofNat_of_lt h
  lt_iff _ hcount := Int64.ofNat_lt_iff_lt h hcount
  le_iff _ hcount := Int64.ofNat_le_iff_le h hcount

/-- A number of 64 bits that is not below `2 ^ 63` is read as a negative one. -/
theorem toInt_of_le {value : Nat} (h : 2 ^ 63 ≤ value) (hbound : value < 2 ^ 64) :
    (Int64.ofNat value).toInt = value - 2 ^ 64 := by
  have hsize : Int64.size = 2 ^ 64 := rfl
  have hmod : (value : Int) % (2 ^ 64 : Nat) = value := Int.emod_eq_of_lt (by omega) (by omega)
  rw [Int64.toInt_ofNat', hsize, Int.bmod_neg, hmod]
  · rfl
  · rw [hmod]
    omega

/-- The number that was read is a negative one, and compared with any count it decides the other way
round. -/
structure Turns (read : Int64) (value : Nat) : Prop where
  toInt_eq : read.toInt = value - 2 ^ 64
  lt_and_lt : ∀ count < 2 ^ 63, read < Int64.ofNat count ∧ count < value

/-- A number with the sign bit set is read as a negative one. -/
theorem turns_of_le {value : Nat} (h : 2 ^ 63 ≤ value) (hbound : value < 2 ^ 64) :
    Turns (Int64.ofNat value) value where
  toInt_eq := toInt_of_le h hbound
  lt_and_lt count hcount := by
    rw [Int64.lt_iff_toInt_lt, toInt_of_le h hbound, Int64.toInt_ofNat_of_lt hcount]
    omega

end ShellCompletion.Script.Bash
