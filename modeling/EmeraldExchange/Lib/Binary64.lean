import EmeraldExchange.Lib.Decimal
import Mathlib.Data.Int.Log
import Mathlib.Data.List.TakeWhile
import Mathlib.Data.Rat.Floor
import Mathlib.Tactic.Linarith
import Mathlib.Tactic.NormNum

/-!
# Double precision numbers and their numerals

A double is a rational with a significand of 53 bits, or infinite, or not a number; the two zeros
are one here. A rational is rounded to the nearest double, ties to the even one, and so is the
number that a decimal numeral stands for. Integers up to `2 ^ 53` are doubles, so that they are
read off their numerals as they are (`Binary64.read_numeral`).
-/

namespace EmeraldExchange

/-- **A double precision number.** -/
inductive Binary64
  | nan
  | infinite (negative : Bool)
  | finite (q : ℚ)
  deriving DecidableEq

namespace Binary64

/-! ### Rounding -/

/-- The nearest integer, ties to the even one. -/
def roundEven (q : ℚ) : ℤ :=
  let rest := q - ⌊q⌋
  if 1 / 2 < rest ∨ rest = 1 / 2 ∧ ⌊q⌋ % 2 = 1 then ⌊q⌋ + 1 else ⌊q⌋

/-- The unit of the last place; below the least normal number it is always the same. -/
def ulp (q : ℚ) : ℚ := 2 ^ (max (Int.log 2 |q|) (-1022) - 52)

/-- **The double that is nearest to a rational.** -/
def ofRat (q : ℚ) : Binary64 :=
  let r := roundEven (q / ulp q) * ulp q
  if 2 ^ 1024 ≤ |r| then .infinite (r < 0) else .finite r

def sub : Binary64 → Binary64 → Binary64
  | .finite p, .finite q => ofRat (p - q)
  | .finite _, .infinite s => .infinite (!s)
  | .infinite s, .finite _ => .infinite s
  | .infinite s, .infinite t => if s = t then .nan else .infinite s
  | .nan, _ | _, .nan => .nan

def mul : Binary64 → Binary64 → Binary64
  | .finite p, .finite q => ofRat (p * q)
  | .finite p, .infinite s | .infinite s, .finite p =>
    if p = 0 then .nan else .infinite (s != (p < 0))
  | .infinite s, .infinite t => .infinite (s != t)
  | .nan, _ | _, .nan => .nan

/-- The order of the doubles, in which what is not a number has no place. -/
def lt : Binary64 → Binary64 → Bool
  | .finite p, .finite q => p < q
  | .finite _, .infinite s => !s
  | .infinite s, .finite _ => s
  | .infinite s, .infinite t => s && !t
  | .nan, _ | _, .nan => false

def trunc : Binary64 → Binary64
  | .finite q => .finite (q.num.tdiv q.den : ℤ)
  | x => x

/-- The integer towards zero, within 64 bits; zero where there is no number. -/
def toI64 : Binary64 → ℤ
  | .nan => 0
  | .infinite s => if s then -2 ^ 63 else 2 ^ 63 - 1
  | .finite q => max (-2 ^ 63) (min (q.num.tdiv q.den) (2 ^ 63 - 1))

/-- The magnitude of a double is greater than a bound. -/
def exceeds (bound : ℚ) : Binary64 → Bool
  | .nan => false
  | .infinite _ => true
  | .finite q => bound < |q|

theorem lt_infinite_true (x : Binary64) : lt x (.infinite true) = false := by
  rcases x with _ | s | q
  · rfl
  · cases s <;> rfl
  · rfl

theorem roundEven_intCast (z : ℤ) : roundEven z = z := by
  rw [roundEven]
  norm_num

theorem ulp_pos (q : ℚ) : 0 < ulp q := zpow_pos (by norm_num) _

theorem ofRat_of_eq_mul {q : ℚ} {m : ℤ} (hm : q = m * ulp q) (hsmall : |q| < 2 ^ 1024) :
    ofRat q = .finite q := by
  have hdiv : q / ulp q = m := by
    rw [div_eq_iff (ulp_pos q).ne', ← hm]
  have hr : roundEven (q / ulp q) * ulp q = q := by rw [hdiv, roundEven_intCast, ← hm]
  rw [ofRat, hr, if_neg (not_le.mpr hsmall)]

/-- The unit of a positive integer is a power of two from `2 ^ (-52)` on. -/
theorem ulp_natCast {n : ℕ} : ulp n = 2 ^ ((Nat.log 2 n : ℤ) - 52) := by
  have hlog : Int.log 2 |(n : ℚ)| = Nat.log 2 n := by
    rw [abs_of_nonneg (Nat.cast_nonneg n), Int.log_natCast]
  rw [ulp, hlog, max_eq_left (by omega)]

theorem ulp_intCast (z : ℤ) : ulp z = ulp (z.natAbs : ℕ) := by
  have habs : |(z : ℚ)| = |((z.natAbs : ℕ) : ℚ)| := by
    rw [Nat.cast_natAbs, Int.cast_abs, abs_abs]
  rw [ulp, ulp, habs]

/-- **Integers up to `2 ^ 53` are doubles.** -/
theorem ofRat_intCast {z : ℤ} (h : z.natAbs ≤ 2 ^ 53) : ofRat z = .finite z := by
  have hbound : |(z : ℚ)| ≤ 2 ^ 53 := by
    rw [← Int.cast_abs, Int.abs_eq_natAbs]
    exact_mod_cast h
  have hsmall : |(z : ℚ)| < 2 ^ 1024 :=
    hbound.trans_lt (pow_lt_pow_right₀ (by norm_num) (by norm_num))
  rcases h.lt_or_eq with hlt | heq
  · -- the unit is one over a power of two
    have hlog : Nat.log 2 z.natAbs ≤ 52 := by
      have := Nat.log_lt_of_lt_pow' (by norm_num) hlt
      omega
    have hunit : ulp z = (2 ^ (52 - Nat.log 2 z.natAbs))⁻¹ := by
      rw [ulp_intCast, ulp_natCast, ← zpow_natCast, ← zpow_neg]
      congr 1
      omega
    refine ofRat_of_eq_mul (m := z * 2 ^ (52 - Nat.log 2 z.natAbs)) ?_ hsmall
    rw [hunit]
    push_cast
    rw [mul_assoc, mul_inv_cancel₀ (by positivity), mul_one]
  · -- the greatest of them is an even number of units
    have hunit : ulp z = 2 := by
      rw [ulp_intCast, ulp_natCast, heq, Nat.log_pow (by norm_num)]
      norm_num
    have hz : z = 2 ^ 53 ∨ z = -2 ^ 53 := by omega
    rcases hz with rfl | rfl
    · refine ofRat_of_eq_mul (m := 2 ^ 52) ?_ hsmall
      rw [hunit]
      norm_num
    · refine ofRat_of_eq_mul (m := -2 ^ 52) ?_ hsmall
      rw [hunit]
      norm_num

/-- The unit of an integer from `2 ^ 52` on is a power of two. -/
theorem ulp_intCast_of_le {z : ℤ} (h : 2 ^ 52 ≤ z.natAbs) :
    ulp z = ((2 ^ (Nat.log 2 z.natAbs - 52) : ℕ) : ℚ) := by
  have hlog : 52 ≤ Nat.log 2 z.natAbs := Nat.le_log_of_pow_le (by norm_num) h
  rw [ulp_intCast, ulp_natCast, Nat.cast_pow, Nat.cast_ofNat, ← zpow_natCast]
  congr 1
  omega

/-- **An integer is rounded to an integer.** -/
theorem exists_intCast_of_ofRat {z : ℤ} {r : ℚ} (h : ofRat z = .finite r) : ∃ n : ℤ, r = n := by
  by_cases hsmall : z.natAbs ≤ 2 ^ 53
  · exact ⟨z, (Binary64.finite.inj ((ofRat_intCast hsmall).symm.trans h)).symm⟩
  · -- the unit is itself an integer
    rw [ofRat] at h
    split at h
    · cases h
    · obtain rfl := Binary64.finite.inj h
      refine ⟨roundEven (z / ulp z) * (2 ^ (Nat.log 2 z.natAbs - 52) : ℕ), ?_⟩
      rw [ulp_intCast_of_le (by omega)]
      push_cast
      ring

/-! ### Numerals -/

open Decimal

/-- The exponent of a numeral, which ends it. -/
def exponent : List Char → Option ℤ
  | [] => some 0
  | c :: cs => if c = 'e' ∨ c = 'E' then integer cs else none

/-- The digits after a point, and what follows them. -/
def fraction : List Char → List Char × List Char
  | '.' :: cs => (cs.takeWhile Char.isDigit, cs.dropWhile Char.isDigit)
  | cs => ([], cs)

/-- **The number of a decimal numeral**: a sign, digits around a point, and an exponent. -/
def decimal (cs : List Char) : Option ℚ :=
  let s := sign cs
  let whole := s.2.takeWhile Char.isDigit
  let frac := fraction (s.2.dropWhile Char.isDigit)
  if whole = [] ∧ frac.1 = [] then none
  else (exponent frac.2).map fun e =>
    signed s.1 (whole ++ frac.1) * 10 ^ (e - (frac.1.length : ℤ))

def read (cs : List Char) : Binary64 :=
  match decimal cs with
  | none => .nan
  | some q => ofRat q

theorem decimal_of_integer {cs : List Char} {z : ℤ} (h : integer cs = some z) :
    decimal cs = some z := by
  obtain ⟨hne, hall, rfl⟩ := integer_eq_some h
  have hdigits : ∀ c ∈ (sign cs).2, c.isDigit = true := List.all_eq_true.mp hall
  have htake : (sign cs).2.takeWhile Char.isDigit = (sign cs).2 :=
    List.takeWhile_eq_self_iff.mpr hdigits
  have hdrop : (sign cs).2.dropWhile Char.isDigit = [] := List.dropWhile_eq_nil_iff.mpr hdigits
  simp only [decimal, htake, hdrop, fraction, exponent, hne, false_and, if_false, Option.map_some,
    List.append_nil, List.length_nil]
  norm_num

/-- **An integer up to `2 ^ 53` is read off its numeral as it is.** -/
theorem read_numeral {cs : List Char} {z : ℤ} (h : integer cs = some z)
    (hz : z.natAbs ≤ 2 ^ 53) : read cs = .finite z := by
  rw [read, decimal_of_integer h]
  exact ofRat_intCast hz

end Binary64

end EmeraldExchange
