import EmeraldExchange.Auth.Session
import EmeraldExchange.Lib.Binary64
import EmeraldExchange.Lib.JsonTree

/-!
# Values as JavaScript reads them

The routes read texts and JSON values with the rules of JavaScript where a client may send either:
what a text is as a number, and what counts as true. A text that is an integer is that integer, up
to the greatest one below which all are doubles (`jsStrNumber_numeral`).
-/

namespace EmeraldExchange.Gateway

open Auth

/-! ### Texts -/

def plainChar (c : Char) : Bool :=
  c.isDigit || c = '+' || c = '-' || c = '.' || c = 'e' || c = 'E'

/-- **`Number(s)`** for the decimal forms: blank is zero, and what cannot be parsed is no number. -/
def jsStrNumber (s : String) : Binary64 :=
  let t := trimMatches jsSpace s.toList
  if t = [] then .finite 0
  else if t.all plainChar then .read t
  else if t = "Infinity".toList ∨ t = "+Infinity".toList then .infinite false
  else if t = "-Infinity".toList then .infinite true
  else .nan

/-! ### JSON values -/

/-- `as_f64`: the double of a number. -/
def asF64 (v : JsonTree) : Option Binary64 := v.asNum.map Binary64.ofRat

/-- `Number(v)`, except that a list or an object is no number. -/
def jsNumber : JsonTree → Binary64
  | .null => .finite 0
  | .bool b => .finite (if b then 1 else 0)
  | .int z => .ofRat z
  | .float q => .ofRat q
  | .str s => jsStrNumber s
  | .arr _ | .obj _ => .nan

/-- `safe_positive`: a positive integer up to the greatest safe one. -/
def safePositive : Binary64 → Option ℕ
  | .finite q => if q.isInt ∧ 0 < q ∧ q ≤ (2 ^ 53 - 1 : ℕ) then some q.num.toNat else none
  | _ => none

def truthy : JsonTree → Bool
  | .null => false
  | .bool b => b
  | .int z => Binary64.ofRat z ≠ .finite 0
  | .float q => Binary64.ofRat q ≠ .finite 0
  | .str s => s ≠ ""
  | .arr _ | .obj _ => true

/-! ### Integers -/

theorem jsSpace_of_visible {c : Char} (hlow : 0x21 ≤ c.toNat) (hhigh : c.toNat ≤ 0x7e) :
    jsSpace c = false := by
  rw [jsSpace, whiteSpace]
  have hne : ∀ n ∈ [0x20, 0x85, 0xa0, 0x1680, 0x2028, 0x2029, 0x202f, 0x205f, 0x3000],
      c.toNat ≠ n := by
    intro n hn heq
    simp only [List.mem_cons, List.not_mem_nil, or_false] at hn
    omega
  have hmem : c.toNat ∉ [0x20, 0x85, 0xa0, 0x1680, 0x2028, 0x2029, 0x202f, 0x205f, 0x3000] :=
    fun hmem => hne _ hmem rfl
  simp only [hmem, decide_false, Bool.or_false, Bool.or_eq_false_iff, Bool.and_eq_false_iff,
    decide_eq_false_iff_not]
  omega

theorem jsSpace_of_plainChar {c : Char} (h : plainChar c = true) : jsSpace c = false := by
  have hrange : 0x2b ≤ c.toNat ∧ c.toNat ≤ 0x65 := by
    simp only [plainChar, Bool.or_eq_true, decide_eq_true_eq] at h
    rcases h with ((((hd | rfl) | rfl) | rfl) | rfl) | rfl
    · rw [Char.isDigit, Bool.and_eq_true, decide_eq_true_eq, decide_eq_true_eq] at hd
      have h0 : 0x30 ≤ c.toNat := hd.1
      have h9 : c.toNat ≤ 0x39 := hd.2
      omega
    all_goals decide
  exact jsSpace_of_visible (by omega) (by omega)

theorem plainChar_of_integer {cs : List Char} {z : ℤ} (h : Decimal.integer cs = some z) :
    cs.all plainChar = true ∧ cs ≠ [] := by
  obtain ⟨hne, hall, -⟩ := Decimal.integer_eq_some h
  have hdigits : ∀ ds : List Char, ds.all Char.isDigit = true → ds.all plainChar = true := by
    intro ds hds
    refine List.all_eq_true.mpr fun c hc => ?_
    rw [plainChar, List.all_eq_true.mp hds c hc]
    rfl
  rcases Decimal.sign_cases cs with ⟨ds, rfl, hsign⟩ | ⟨ds, rfl, hsign⟩ | hsign
  · rw [hsign] at hall
    refine ⟨?_, List.cons_ne_nil _ _⟩
    rw [List.all_cons, hdigits ds hall]
    rfl
  · rw [hsign] at hall
    refine ⟨?_, List.cons_ne_nil _ _⟩
    rw [List.all_cons, hdigits ds hall]
    rfl
  · rw [hsign] at hall hne
    exact ⟨hdigits cs hall, hne⟩

/-- **A text that is an integer is that number.** -/
theorem jsStrNumber_numeral {s : String} {z : ℤ} (h : Decimal.integer s.toList = some z)
    (hz : z.natAbs ≤ 2 ^ 53) : jsStrNumber s = .finite z := by
  obtain ⟨hplain, hne⟩ := plainChar_of_integer h
  have htrim : trimMatches jsSpace s.toList = s.toList :=
    trimMatches_of_forall fun c hc => jsSpace_of_plainChar (List.all_eq_true.mp hplain c hc)
  simp only [jsStrNumber, htrim]
  rw [if_neg hne, if_pos hplain]
  exact Binary64.read_numeral h hz

end EmeraldExchange.Gateway
