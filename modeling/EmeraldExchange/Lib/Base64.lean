import Mathlib.Data.List.Basic
import Mathlib.Data.Nat.Notation

/-!
# Base64 in the URL-safe alphabet, without padding

Three bytes are four digits of six bits. What is left at the end, one byte or two, is two digits
or three, whose last bits are zero. A text is decoded only if its digits are of the alphabet and
these bits are zero.

`decode_encode` is the law: what is encoded is decoded.
-/

namespace EmeraldExchange.Base64

def digit (n : ℕ) : Char :=
  if n < 26 then Char.ofNat (n + 'A'.toNat)
  else if n < 52 then Char.ofNat (n - 26 + 'a'.toNat)
  else if n < 62 then Char.ofNat (n - 52 + '0'.toNat)
  else if n = 62 then '-'
  else '_'

def value (c : Char) : Option ℕ :=
  if 'A' ≤ c ∧ c ≤ 'Z' then some (c.toNat - 'A'.toNat)
  else if 'a' ≤ c ∧ c ≤ 'z' then some (c.toNat - 'a'.toNat + 26)
  else if '0' ≤ c ∧ c ≤ '9' then some (c.toNat - '0'.toNat + 52)
  else if c = '-' then some 62
  else if c = '_' then some 63
  else none

theorem value_digit {n : ℕ} (h : n < 64) : value (digit n) = some n := by
  have hall : ∀ m : Fin 64, value (digit m) = some (m : ℕ) := by decide +kernel
  exact hall ⟨n, h⟩

/-- The first byte of two digits, the second of the next two, the third of the last two. -/
def first (m n : ℕ) : UInt8 := UInt8.ofNat (m * 4 + n / 16)

@[inherit_doc first]
def second (n o : ℕ) : UInt8 := UInt8.ofNat (n % 16 * 16 + o / 4)

@[inherit_doc first]
def third (o p : ℕ) : UInt8 := UInt8.ofNat (o % 4 * 64 + p)

/-- **Encode.** -/
def encode : List UInt8 → List Char
  | [] => []
  | [a] => [digit (a.toNat / 4), digit (a.toNat % 4 * 16)]
  | [a, b] =>
    [digit (a.toNat / 4), digit (a.toNat % 4 * 16 + b.toNat / 16), digit (b.toNat % 16 * 4)]
  | a :: b :: c :: rest =>
    digit (a.toNat / 4) :: digit (a.toNat % 4 * 16 + b.toNat / 16) ::
      digit (b.toNat % 16 * 4 + c.toNat / 64) :: digit (c.toNat % 64) :: encode rest

/-- **Decode.** -/
def decode : List Char → Option (List UInt8)
  | [] => some []
  | [_] => none
  | [w, x] => do
    let (m, n) := (← value w, ← value x)
    if n % 16 = 0 then some [first m n] else none
  | [w, x, y] => do
    let (m, n, o) := (← value w, ← value x, ← value y)
    if o % 4 = 0 then some [first m n, second n o] else none
  | w :: x :: y :: z :: rest => do
    let (m, n, o, p) := (← value w, ← value x, ← value y, ← value z)
    let bytes ← decode rest
    some (first m n :: second n o :: third o p :: bytes)

section bytes

variable (a : UInt8) {x y : ℕ}

theorem first_eq (hx : x < 16) : first (a.toNat / 4) (a.toNat % 4 * 16 + x) = a := by
  have hnat : a.toNat / 4 * 4 + (a.toNat % 4 * 16 + x) / 16 = a.toNat := by omega
  rw [first, hnat, UInt8.ofNat_toNat]

theorem second_eq (hx : x < 4) : second (y * 16 + a.toNat / 16) (a.toNat % 16 * 4 + x) = a := by
  have ha := a.toNat_lt
  have hnat : (y * 16 + a.toNat / 16) % 16 * 16 + (a.toNat % 16 * 4 + x) / 4 = a.toNat := by omega
  rw [second, hnat, UInt8.ofNat_toNat]

theorem third_eq : third (y * 4 + a.toNat / 64) (a.toNat % 64) = a := by
  have ha := a.toNat_lt
  have hnat : (y * 4 + a.toNat / 64) % 4 * 64 + a.toNat % 64 = a.toNat := by omega
  rw [third, hnat, UInt8.ofNat_toNat]

end bytes

/-- **What is encoded is decoded.** -/
theorem decode_encode (bytes : List UInt8) : decode (encode bytes) = some bytes := by
  fun_induction encode bytes with
  | case1 => rfl
  | case2 a =>
    have ha := a.toNat_lt
    have h₁ := first_eq a (x := 0) (by decide)
    rw [Nat.add_zero] at h₁
    have hzero : a.toNat % 4 * 16 % 16 = 0 := by omega
    simp [decode, value_digit (show a.toNat / 4 < 64 by omega),
      value_digit (show a.toNat % 4 * 16 < 64 by omega), hzero, h₁]
  | case3 a b =>
    have ha := a.toNat_lt
    have hb := b.toNat_lt
    have h₁ := first_eq a (x := b.toNat / 16) (by omega)
    have h₂ := second_eq b (x := 0) (y := a.toNat % 4) (by decide)
    rw [Nat.add_zero] at h₂
    have hzero : b.toNat % 16 * 4 % 4 = 0 := by omega
    simp [decode, value_digit (show a.toNat / 4 < 64 by omega),
      value_digit (show a.toNat % 4 * 16 + b.toNat / 16 < 64 by omega),
      value_digit (show b.toNat % 16 * 4 < 64 by omega), hzero, h₁, h₂]
  | case4 a b c rest ih =>
    have ha := a.toNat_lt
    have hb := b.toNat_lt
    have hc := c.toNat_lt
    have h₁ := first_eq a (x := b.toNat / 16) (by omega)
    have h₂ := second_eq b (x := c.toNat / 64) (y := a.toNat % 4) (by omega)
    have h₃ := third_eq c (y := b.toNat % 16)
    simp [decode, value_digit (show a.toNat / 4 < 64 by omega),
      value_digit (show a.toNat % 4 * 16 + b.toNat / 16 < 64 by omega),
      value_digit (show b.toNat % 16 * 4 + c.toNat / 64 < 64 by omega),
      value_digit (show c.toNat % 64 < 64 by omega), ih, h₁, h₂, h₃]

theorem forall_digit {P : Char → Prop} (h : ∀ m : Fin 64, P (digit m)) (n : ℕ) : P (digit n) := by
  rcases Nat.lt_or_ge n 64 with hn | hn
  · exact h ⟨n, hn⟩
  · have hlast : digit n = digit 63 := by
      unfold digit
      rw [if_neg (by omega), if_neg (by omega), if_neg (by omega), if_neg (by omega)]
      rfl
    rw [hlast]
    exact h 63

theorem forall_mem_encode {P : Char → Prop} (h : ∀ n, P (digit n)) (bytes : List UInt8) :
    ∀ c ∈ encode bytes, P c := by
  fun_induction encode bytes with
  | case1 => simp
  | case2 a => simp [h]
  | case3 a b => simp [h]
  | case4 a b c rest ih => simpa [h] using ih

theorem digit_ne_dot (n : ℕ) : digit n ≠ '.' :=
  forall_digit (P := (· ≠ '.')) (by decide +kernel) n

theorem dot_notMem_encode (bytes : List UInt8) : '.' ∉ encode bytes :=
  fun h => forall_mem_encode (P := (· ≠ '.')) digit_ne_dot bytes _ h rfl

end EmeraldExchange.Base64
