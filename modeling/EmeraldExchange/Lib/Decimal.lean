import Mathlib.Algebra.Group.Nat.Defs
import Mathlib.Algebra.Ring.Int.Defs
import Mathlib.Data.List.Basic
import Mathlib.Data.Int.Notation
import Mathlib.Order.Basic

/-!
# Decimal numerals

A natural number is written with its digits, most significant first, and read back by taking
digits as long as there are any. Integers have a minus sign in front. The laws are that a
numeral is read back as its number, whatever follows it, as long as that is not a digit.
-/

namespace EmeraldExchange.Decimal

def text (n : ℕ) : List Char := Nat.toDigits 10 n

/-- The digits at the front, if there are any, as a number, and what follows them. -/
def read (cs : List Char) : Option (ℕ × List Char) :=
  match cs.takeWhile Char.isDigit with
  | [] => none
  | ds => some (Nat.ofDigitChars 10 ds 0, cs.dropWhile Char.isDigit)

def Ends (rest : List Char) : Prop := ∀ c ∈ rest.head?, c.isDigit = false

theorem ends_nil : Ends [] := by
  rintro c ⟨⟩

theorem ends_cons {c : Char} (h : c.isDigit = false) (rest : List Char) : Ends (c :: rest) := by
  rintro c' hc'
  obtain rfl := Option.some.inj hc'
  exact h

theorem isDigit_of_mem_text {n : ℕ} {c : Char} (h : c ∈ text n) : c.isDigit = true :=
  Nat.isDigit_of_mem_toDigits (by decide) (by decide) h

theorem text_ne_nil (n : ℕ) : text n ≠ [] := Nat.toDigits_ne_nil

theorem takeWhile_text_append (n : ℕ) {rest : List Char} (h : Ends rest) :
    (text n ++ rest).takeWhile Char.isDigit = text n := by
  rw [List.takeWhile_append_of_pos fun c hc => isDigit_of_mem_text hc]
  cases rest with
  | nil => simp
  | cons c rest => simp [h c rfl]

theorem dropWhile_text_append (n : ℕ) {rest : List Char} (h : Ends rest) :
    (text n ++ rest).dropWhile Char.isDigit = rest := by
  rw [List.dropWhile_append_of_pos fun c hc => isDigit_of_mem_text hc]
  cases rest with
  | nil => rfl
  | cons c rest => simp [h c rfl]

/-- **A numeral is read back as its number.** -/
theorem read_text_append (n : ℕ) {rest : List Char} (h : Ends rest) :
    read (text n ++ rest) = some (n, rest) := by
  unfold read
  rw [takeWhile_text_append n h, dropWhile_text_append n h]
  split
  next hnil => exact absurd hnil (text_ne_nil n)
  next ds _ => rw [text, Nat.ofDigitChars_ten_toDigits]

def intText (z : ℤ) : List Char := if z < 0 then '-' :: text z.natAbs else text z.natAbs

/-- An integer at the front, and what follows it. -/
def readInt : List Char → Option (ℤ × List Char)
  | '-' :: cs => (read cs).map fun p => (-(p.1 : ℤ), p.2)
  | cs => (read cs).map fun p => ((p.1 : ℤ), p.2)

theorem readInt_text_append (n : ℕ) {rest : List Char} (h : Ends rest) :
    readInt (text n ++ rest) = some ((n : ℤ), rest) := by
  have hread := read_text_append n h
  unfold readInt
  split
  next cs heq =>
    -- the minus sign would be a digit
    obtain ⟨c, ds, hcons⟩ := List.exists_cons_of_ne_nil (text_ne_nil n)
    rw [hcons, List.cons_append] at heq
    obtain rfl := (List.cons.inj heq).1
    exact absurd (isDigit_of_mem_text (hcons ▸ List.mem_cons_self)) (by decide)
  next => simp [hread]

/-- **The numeral of an integer is read back.** -/
theorem readInt_intText_append (z : ℤ) {rest : List Char} (h : Ends rest) :
    readInt (intText z ++ rest) = some (z, rest) := by
  unfold intText
  split
  next hneg =>
    have hz : -(z.natAbs : ℤ) = z := by omega
    simp only [List.cons_append, readInt, read_text_append z.natAbs h, Option.map_some, hz]
  next hnonneg =>
    have hz : (z.natAbs : ℤ) = z := by omega
    rw [readInt_text_append z.natAbs h, hz]

/-! ### Numerals of any spelling -/

/-- Whether there is a minus sign in front, and what follows the sign. -/
def sign : List Char → Bool × List Char
  | '-' :: cs => (true, cs)
  | '+' :: cs => (false, cs)
  | cs => (false, cs)

def signed (negative : Bool) (ds : List Char) : ℤ :=
  let n : ℤ := Nat.ofDigitChars 10 ds 0
  if negative then -n else n

/-- **An integer**: digits, as many zeros as there may be in front, after a sign or without one. -/
def integer (cs : List Char) : Option ℤ :=
  let s := sign cs
  if s.2 ≠ [] ∧ s.2.all Char.isDigit then some (signed s.1 s.2) else none

theorem sign_cases (cs : List Char) : (∃ ds, cs = '-' :: ds ∧ sign cs = (true, ds)) ∨
    (∃ ds, cs = '+' :: ds ∧ sign cs = (false, ds)) ∨ sign cs = (false, cs) := by
  unfold sign
  split
  · exact .inl ⟨_, rfl, rfl⟩
  · exact .inr (.inl ⟨_, rfl, rfl⟩)
  · exact .inr (.inr rfl)

theorem integer_eq_some {cs : List Char} {z : ℤ} (h : integer cs = some z) :
    (sign cs).2 ≠ [] ∧ (sign cs).2.all Char.isDigit ∧ z = signed (sign cs).1 (sign cs).2 := by
  rw [integer] at h
  split at h
  · next hds =>
    exact ⟨hds.1, hds.2, (Option.some.inj h).symm⟩
  · cases h

/-! ### Numerals of a width -/

/-- As many digits as the width says, which spell the number. -/
structure Numeral (ds : List Char) (width : ℕ) (n : ℤ) : Prop where
  length : ds.length = width
  digits : ds.all Char.isDigit = true
  value : (Nat.ofDigitChars 10 ds 0 : ℤ) = n

theorem numeral_mk {ds : List Char} (h : ds.all Char.isDigit = true) :
    Numeral ds ds.length (Nat.ofDigitChars 10 ds 0) := ⟨rfl, h, rfl⟩

theorem ofDigitChars_lt {ds : List Char} (h : ds.all Char.isDigit = true) :
    Nat.ofDigitChars 10 ds 0 < 10 ^ ds.length := by
  induction ds with
  | nil => simp
  | cons c ds ih =>
    rw [List.all_cons, Bool.and_eq_true] at h
    have hc := Char.isDigit_iff_toNat.mp h.1
    have hlt := ih h.2
    rw [Nat.ofDigitChars_cons, Nat.ofDigitChars_eq_ofDigitChars_zero, List.length_cons,
      Nat.pow_succ]
    have hdigit : 10 * 0 + (c.toNat - '0'.toNat) ≤ 9 := by
      rw [show '0'.toNat = 48 from rfl] at hc ⊢
      rw [show '9'.toNat = 57 from rfl] at hc
      omega
    have := Nat.mul_le_mul_left (10 ^ ds.length) hdigit
    omega

/-- **Digits of one length that spell one number are the same.** -/
theorem digits_unique {ds ds' : List Char} (hlength : ds.length = ds'.length)
    (h : ds.all Char.isDigit = true) (h' : ds'.all Char.isDigit = true)
    (hvalue : Nat.ofDigitChars 10 ds 0 = Nat.ofDigitChars 10 ds' 0) : ds = ds' := by
  induction ds generalizing ds' with
  | nil => exact (List.length_eq_zero_iff.mp hlength.symm).symm
  | cons c ds ih =>
    obtain ⟨c', ds', rfl⟩ := List.exists_cons_of_length_eq_add_one hlength.symm
    rw [List.length_cons, List.length_cons, Nat.add_right_cancel_iff] at hlength
    rw [List.all_cons, Bool.and_eq_true] at h h'
    have hlt := ofDigitChars_lt h.2
    have hlt' := ofDigitChars_lt h'.2
    rw [Nat.ofDigitChars_cons, Nat.ofDigitChars_eq_ofDigitChars_zero, Nat.ofDigitChars_cons,
      Nat.ofDigitChars_eq_ofDigitChars_zero (l := ds'), ← hlength, Nat.mul_zero, Nat.zero_add,
      Nat.zero_add] at hvalue
    rw [← hlength] at hlt'
    -- the first digit is the quotient by the power, and the others are the remainder
    have hpos : 0 < 10 ^ ds.length := Nat.pow_pos (by decide)
    have hquot := congrArg (· / 10 ^ ds.length) hvalue
    have hrem := congrArg (· % 10 ^ ds.length) hvalue
    simp only [Nat.mul_add_div hpos, Nat.mul_add_mod, Nat.div_eq_of_lt hlt, Nat.div_eq_of_lt hlt',
      Nat.mod_eq_of_lt hlt, Nat.mod_eq_of_lt hlt', Nat.add_zero] at hquot hrem
    have hc := Char.isDigit_iff_toNat.mp h.1
    have hc' := Char.isDigit_iff_toNat.mp h'.1
    rw [ih hlength h.2 h'.2 hrem, Char.toNat_inj.mp (by omega : c.toNat = c'.toNat)]

theorem Numeral.bounds {ds : List Char} {width : ℕ} {n : ℤ} (h : Numeral ds width n) :
    0 ≤ n ∧ n < (10 ^ width : ℕ) := by
  have hlt := ofDigitChars_lt h.digits
  rw [h.length] at hlt
  have := h.value
  omega

/-- **A numeral is read as an integer.** -/
theorem Numeral.integer {ds : List Char} {width : ℕ} {n : ℤ} (h : Numeral ds width n)
    (hwidth : 0 < width) : integer ds = some n := by
  obtain ⟨rfl, hdigits, rfl⟩ := h
  have hne : ds ≠ [] := List.ne_nil_of_length_pos hwidth
  have hsign : sign ds = (false, ds) := by
    rcases sign_cases ds with ⟨ds', rfl, -⟩ | ⟨ds', rfl, -⟩ | h
    · exact absurd (List.all_eq_true.mp hdigits _ List.mem_cons_self) (by decide)
    · exact absurd (List.all_eq_true.mp hdigits _ List.mem_cons_self) (by decide)
    · exact h
  rw [Decimal.integer, hsign]
  exact if_pos ⟨hne, hdigits⟩

theorem Numeral.zeros {ds : List Char} {width : ℕ} {n : ℤ} (h : Numeral ds width n) (k : ℕ) :
    Numeral (List.replicate k '0' ++ ds) (k + width) n where
  length := by rw [List.length_append, List.length_replicate, h.length]
  digits := by
    rw [List.all_append, h.digits, Bool.and_true, List.all_eq_true]
    rintro c hc
    obtain rfl := List.eq_of_mem_replicate hc
    rfl
  value := by
    rw [Nat.ofDigitChars_append, Nat.ofDigitChars_replicate_zero, Nat.mul_zero]
    exact h.value

theorem Numeral.cons {ds : List Char} {width d : ℕ} {n : ℤ} (h : Numeral ds width n) (hd : d < 10) :
    Numeral (d.digitChar :: ds) (width + 1) (10 ^ width * d + n) where
  length := by rw [List.length_cons, h.length]
  digits := by
    rw [List.all_cons, h.digits, Nat.isDigit_digitChar]
    simpa using hd
  value := by
    rw [Nat.ofDigitChars_cons_digitChar_of_lt_ten hd, Nat.ofDigitChars_eq_ofDigitChars_zero,
      h.length, ← h.value]
    push_cast
    rw [zero_add]

end EmeraldExchange.Decimal
