import EmeraldExchange.Lib.Decimal
import Mathlib.Data.List.Lex

/-!
# The order of texts

Texts are compared character by character, and a text before its continuations. So texts that are
put together from fields of the same widths are compared field by field
(`lex_append`), and digits of one width as the numbers they spell
(`lex_digits`): a time that is written from its year down to its second
sorts like the time.
-/

namespace EmeraldExchange.TextOrder

def TextLt (s t : List Char) : Prop := List.Lex (· < ·) s t

instance instDecidableTextLt (s t : List Char) : Decidable (TextLt s t) :=
  List.decidableLex (· < ·) s t

def compareText (s t : List Char) : Ordering :=
  if TextLt s t then .lt else if TextLt t s then .gt else .eq

theorem textLt_irrefl (s : List Char) : ¬ TextLt s s := List.lt_irrefl s

theorem textLt_trans {s t u : List Char} (h : TextLt s t) (h' : TextLt t u) : TextLt s u :=
  List.lt_trans h h'

theorem textLt_asymm {s t : List Char} (h : TextLt s t) : ¬ TextLt t s :=
  fun h' => textLt_irrefl s (textLt_trans h h')

theorem textLt_or_eq (s t : List Char) : TextLt s t ∨ s = t ∨ TextLt t s := by
  rcases Decidable.em (TextLt s t) with h | h
  · exact Or.inl h
  · rcases List.le_iff_lt_or_eq.mp (List.not_lt.mp h) with h' | rfl
    · exact Or.inr (Or.inr h')
    · exact Or.inr (Or.inl rfl)

theorem not_textLt_trans {s t u : List Char} (h : ¬ TextLt s t) (h' : ¬ TextLt t u) :
    ¬ TextLt s u := by
  intro hsu
  rcases textLt_or_eq t s with hts | rfl | hst
  · exact h' (textLt_trans hts hsu)
  · exact h' hsu
  · exact h hst

theorem compareText_swap (s t : List Char) : compareText s t = (compareText t s).swap := by
  unfold compareText
  rcases textLt_or_eq s t with h | rfl | h
  · rw [if_pos h, if_neg (textLt_asymm h), if_pos h]
    rfl
  · rw [if_neg (textLt_irrefl s), if_neg (textLt_irrefl s)]
    rfl
  · rw [if_neg (textLt_asymm h), if_pos h, if_pos h]
    rfl

theorem compareText_ne_gt {s t : List Char} : compareText s t ≠ .gt ↔ ¬ TextLt t s := by
  unfold compareText
  rcases textLt_or_eq s t with h | rfl | h
  · rw [if_pos h]
    exact iff_of_true (by decide) (textLt_asymm h)
  · rw [if_neg (textLt_irrefl s), if_neg (textLt_irrefl s)]
    exact iff_of_true (by decide) (textLt_irrefl s)
  · rw [if_neg (textLt_asymm h), if_pos h]
    exact iff_of_false (fun hne => hne rfl) fun hnot => hnot h

section order

variable {α : Type} {r : α → α → Prop} {x x' y y' : List α}

/-- **Lists with a first part of the same length** are compared by this part, and then by what
follows. -/
theorem lex_append (h : x.length = x'.length) : List.Lex r (x ++ y) (x' ++ y') ↔
    List.Lex r x x' ∨ (x = x' ∧ List.Lex r y y') := by
  induction x generalizing x' with
  | nil =>
    obtain rfl := List.length_eq_zero_iff.mp h.symm
    simp
  | cons a x ih =>
    obtain ⟨a', x', rfl⟩ := List.exists_cons_of_length_eq_add_one h.symm
    simp only [List.cons_append, List.cons_lex_cons_iff, List.cons.injEq,
      ih (Nat.succ.inj h), and_or_left, or_assoc, and_assoc]

theorem lex_cons_self (h : ∀ a, ¬ r a a) (a : α) :
    List.Lex r (a :: y) (a :: y') ↔ List.Lex r y y' := by
  simp [List.cons_lex_cons_iff, h]

end order

section digits

variable {ds ds' s t : List Char}

/-- **Digits of one length are compared as numbers.** -/
theorem lex_digits (hlength : ds.length = ds'.length) (h : ds.all Char.isDigit = true)
    (h' : ds'.all Char.isDigit = true) :
    TextLt ds ds' ↔ Nat.ofDigitChars 10 ds 0 < Nat.ofDigitChars 10 ds' 0 := by
  induction ds generalizing ds' with
  | nil =>
    obtain rfl := List.length_eq_zero_iff.mp hlength.symm
    simp [TextLt]
  | cons c ds ih =>
    obtain ⟨c', ds', rfl⟩ := List.exists_cons_of_length_eq_add_one hlength.symm
    rw [List.length_cons, List.length_cons, Nat.add_right_cancel_iff] at hlength
    rw [List.all_cons, Bool.and_eq_true] at h h'
    have hlt := Decimal.ofDigitChars_lt h.2
    have hlt' := Decimal.ofDigitChars_lt h'.2
    have hrest := ih hlength h.2 h'.2
    have hc := Char.isDigit_iff_toNat.mp h.1
    have hc' := Char.isDigit_iff_toNat.mp h'.1
    have hchar : c < c' ↔ c.toNat < c'.toNat := Iff.rfl
    rw [← hlength] at hlt'
    rw [TextLt, List.cons_lex_cons_iff, Nat.ofDigitChars_cons,
      Nat.ofDigitChars_eq_ofDigitChars_zero, Nat.ofDigitChars_cons,
      Nat.ofDigitChars_eq_ofDigitChars_zero (l := ds'), ← hlength, Nat.mul_zero, Nat.zero_add,
      Nat.zero_add, hchar, ← Char.toNat_inj]
    rw [TextLt] at hrest
    rw [hrest]
    rw [show '0'.toNat = 48 from rfl] at *
    -- the first digit counts for more than all the others
    rcases Nat.lt_trichotomy c.toNat c'.toNat with hlow | heq | hhigh
    · have hmul := Nat.mul_le_mul_left (10 ^ ds.length)
        (show c.toNat - 48 + 1 ≤ c'.toNat - 48 by omega)
      rw [Nat.mul_add, Nat.mul_one] at hmul
      exact iff_of_true (Or.inl hlow) (by omega)
    · rw [heq]
      simp
    · have hmul := Nat.mul_le_mul_left (10 ^ ds.length)
        (show c'.toNat - 48 + 1 ≤ c.toNat - 48 by omega)
      rw [Nat.mul_add, Nat.mul_one] at hmul
      exact iff_of_false (by omega) (by omega)

theorem lex_field (hlength : ds.length = ds'.length) (h : ds.all Char.isDigit = true)
    (h' : ds'.all Char.isDigit = true) : TextLt (ds ++ s) (ds' ++ t) ↔
      Nat.ofDigitChars 10 ds 0 < Nat.ofDigitChars 10 ds' 0 ∨
        (Nat.ofDigitChars 10 ds 0 = Nat.ofDigitChars 10 ds' 0 ∧ TextLt s t) := by
  have heq : ds = ds' ↔ Nat.ofDigitChars 10 ds 0 = Nat.ofDigitChars 10 ds' 0 :=
    ⟨fun heq => by rw [heq], Decimal.digits_unique hlength h h'⟩
  rw [TextLt, lex_append hlength, heq, ← lex_digits hlength h h']
  rfl

theorem lex_separator (c : Char) : TextLt (c :: s) (c :: t) ↔ TextLt s t :=
  lex_cons_self Char.lt_irrefl c

end digits

/-! ### Fields of digits -/

/-- **Digits of a width.** -/
structure Field (width : ℕ) where
  digits : List Char
  length_eq : digits.length = width
  isDigit : digits.all Char.isDigit = true

namespace Field

variable {width : ℕ} (f f' : Field width)

def value : ℕ := Nat.ofDigitChars 10 f.digits 0

theorem lt_iff (s s' : List Char) : TextLt (f.digits ++ s) (f'.digits ++ s') ↔
    f.value < f'.value ∨ f.value = f'.value ∧ TextLt s s' :=
  lex_field (f.length_eq.trans f'.length_eq.symm) f.isDigit f'.isDigit

theorem last_lt_iff : TextLt f.digits f'.digits ↔ f.value < f'.value :=
  lex_digits (f.length_eq.trans f'.length_eq.symm) f.isDigit f'.isDigit

end Field

def two (n : ℕ) : Field 2 where
  digits := [(n / 10 % 10).digitChar, (n % 10).digitChar]
  length_eq := rfl
  isDigit := by
    have hdigit : ∀ k, (k % 10).digitChar.isDigit = true := fun k => by
      rw [Nat.isDigit_digitChar]
      simpa using Nat.mod_lt k (by decide)
    simp [hdigit]

theorem value_two {n : ℕ} (h : n < 100) : (two n).value = n := by
  have hquot : n / 10 % 10 < 10 := Nat.mod_lt _ (by decide)
  have hrem : n % 10 < 10 := Nat.mod_lt _ (by decide)
  rw [Field.value, two, Nat.ofDigitChars_cons_digitChar_of_lt_ten hquot,
    Nat.ofDigitChars_cons_digitChar_of_lt_ten hrem, Nat.ofDigitChars_nil]
  omega

/-! ### Parts of any length -/

/-- **A first part that ends with a character of its own** is compared with this character. -/
theorem lt_separated {s t x y : List Char} {c : Char} (hs : c ∉ s) (ht : c ∉ t) :
    TextLt (s ++ c :: x) (t ++ c :: y) ↔
      TextLt (s ++ [c]) (t ++ [c]) ∨ (s = t ∧ TextLt x y) := by
  induction s generalizing t with
  | nil =>
    rcases t with _ | ⟨b, t⟩
    · simp [TextLt, List.cons_lex_cons_iff, Char.lt_irrefl]
    · have hne : c ≠ b := fun h => ht (h ▸ List.mem_cons_self)
      simp [TextLt, List.cons_lex_cons_iff, hne]
  | cons a s ih =>
    rcases t with _ | ⟨b, t⟩
    · have hne : a ≠ c := fun h => hs (h ▸ List.mem_cons_self)
      simp [TextLt, List.cons_lex_cons_iff, hne]
    · have hrest := ih (fun h => hs (List.mem_cons_of_mem _ h))
        fun h => ht (List.mem_cons_of_mem _ h)
      rw [TextLt, TextLt, TextLt] at hrest
      simp only [TextLt, List.cons_append, List.cons_lex_cons_iff, hrest, List.cons.injEq,
        and_or_left, or_assoc, and_assoc]

end EmeraldExchange.TextOrder
