import Mathlib.Data.Nat.Notation
import Mathlib.Logic.Basic

/-!
# A bit as a tag

One bit of a word tells two kinds of numbers apart: it is set in the words of one kind, and the
number is what is left when it is cleared. That works for the numbers in which it is not set
(`clear_set`), and for every word in which it is
(`set_clear`); a number in which it is set already is its own tagged word
(`set_eq_self`).
-/

namespace EmeraldExchange.TagBit

variable {w i j : ℕ} {x y : BitVec w}

def tagged (i : ℕ) (x : BitVec w) : Bool := x.getLsbD i

def set (i : ℕ) (x : BitVec w) : BitVec w := x ||| .twoPow w i

def clear (i : ℕ) (x : BitVec w) : BitVec w := x &&& ~~~(.twoPow w i)

theorem getLsbD_set (hj : j < w) : (set i x).getLsbD j = (x.getLsbD j || decide (i = j)) := by
  rw [set, BitVec.getLsbD_or, BitVec.getLsbD_twoPow]
  by_cases hij : i = j
  · subst hij
    simp [hj]
  · simp [hij]

theorem getLsbD_clear (hj : j < w) :
    (clear i x).getLsbD j = (x.getLsbD j && !decide (i = j)) := by
  rw [clear, BitVec.getLsbD_and, BitVec.getLsbD_not, BitVec.getLsbD_twoPow]
  by_cases hij : i = j
  · subst hij
    simp [hj]
  · simp [hij, hj]

theorem and_twoPow_ne_zero_iff (hi : i < w) : x &&& .twoPow w i ≠ 0#w ↔ tagged i x = true := by
  have hbit : (BitVec.twoPow w i).getLsbD i = true := by simp [hi]
  rw [BitVec.and_twoPow, tagged]
  by_cases h : x.getLsbD i = true
  · rw [if_pos h]
    refine iff_of_true (fun hzero => ?_) h
    rw [hzero] at hbit
    simp at hbit
  · rw [if_neg h]
    exact iff_of_false (fun hne => hne rfl) h

theorem tagged_set (hi : i < w) : tagged i (set i x) = true := by
  simp [tagged, getLsbD_set hi]

theorem tagged_clear (hi : i < w) : tagged i (clear i x) = false := by
  simp [tagged, getLsbD_clear hi]

/-- **What is tagged already stays as it is.** -/
theorem set_eq_self (h : tagged i x = true) : set i x = x := by
  refine BitVec.eq_of_getLsbD_eq fun j hj => ?_
  rw [getLsbD_set hj]
  by_cases hij : i = j
  · subst hij
    rw [tagged] at h
    simp [h]
  · simp [hij]

theorem clear_eq_self (h : tagged i x = false) : clear i x = x := by
  refine BitVec.eq_of_getLsbD_eq fun j hj => ?_
  rw [getLsbD_clear hj]
  by_cases hij : i = j
  · subst hij
    rw [tagged] at h
    simp [h]
  · simp [hij]

/-- **A word without the tag comes back.** -/
theorem clear_set (h : tagged i x = false) : clear i (set i x) = x := by
  refine BitVec.eq_of_getLsbD_eq fun j hj => ?_
  rw [getLsbD_clear hj, getLsbD_set hj]
  by_cases hij : i = j
  · subst hij
    rw [tagged] at h
    simp [h]
  · simp [hij]

/-- **A word with the tag comes back.** -/
theorem set_clear (h : tagged i x = true) : set i (clear i x) = x := by
  refine BitVec.eq_of_getLsbD_eq fun j hj => ?_
  rw [getLsbD_set hj, getLsbD_clear hj]
  by_cases hij : i = j
  · subst hij
    rw [tagged] at h
    simp [h]
  · simp [hij]

theorem set_eq_add (h : tagged i x = false) : set i x = x + .twoPow w i := by
  refine (BitVec.add_eq_or_of_and_eq_zero _ _ ?_).symm
  rw [BitVec.and_twoPow, if_neg (by rw [tagged] at h; simp [h])]

end EmeraldExchange.TagBit
