import Mathlib.Algebra.BigOperators.Group.List.Basic
import Mathlib.Algebra.Field.Basic
import Mathlib.Algebra.Ring.CharZero
import Mathlib.Data.List.ProdSigma
import Mathlib.Data.Nat.Cast.Field
import Mathlib.Order.Basic
import Mathlib.Tactic.FieldSimp
import Mathlib.Tactic.Ring

/-!
# Ranks with ties

The rank of a value in a list is how many values are not above it, but those that tie share the
middle of their ranks. That is a matter of pairs: a value gets a point against each one below it and
half a point against each one it ties with (`points`), and its rank is half a
point more (`rank`).

What two values get against each other is one point together, so that the ranks of some values
among themselves and others add up to a sum that is known, and their points against the others
(`sum_rank`).
-/

namespace EmeraldExchange.Ranks

variable {α : Type*} [LinearOrder α] (K : Type*) [Field K]

/-- **What a value gets against another**: a point if it is above, half a point if they tie. -/
def against (x y : α) : K := if y < x then 1 else if x = y then 1 / 2 else 0

/-- What a value gets against those of a list. -/
def points (x : α) (ys : List α) : K := (ys.map (against K x)).sum

/-- **The rank of a value in a list**, from one on. -/
def rank (x : α) (ys : List α) : K := points K x ys + 1 / 2

variable {K} {x y : α} {xs ys zs : List α}

theorem against_of_gt (h : y < x) : against K x y = 1 := if_pos h

theorem against_self : against K x x = 1 / 2 := by
  rw [against, if_neg (lt_irrefl x), if_pos rfl]

theorem against_of_lt (h : x < y) : against K x y = 0 := by
  rw [against, if_neg h.not_gt, if_neg h.ne]

@[simp] theorem points_nil : points K x [] = 0 := rfl

@[simp] theorem points_cons : points K x (y :: ys) = against K x y + points K x ys :=
  List.sum_cons

theorem points_append : points K x (ys ++ zs) = points K x ys + points K x zs := by
  rw [points, List.map_append, List.sum_append]
  rfl

theorem points_perm (h : ys.Perm zs) : points K x ys = points K x zs := (h.map _).sum_eq

theorem points_of_lt (h : ∀ y ∈ ys, x < y) : points K x ys = 0 := by
  induction ys with
  | nil => rfl
  | cons y ys ih =>
    obtain ⟨hy, hys⟩ := List.forall_mem_cons.mp h
    rw [points_cons, against_of_lt hy, ih hys, add_zero]

theorem points_of_gt (h : ∀ y ∈ ys, y < x) : points K x ys = ys.length := by
  induction ys with
  | nil => simp
  | cons y ys ih =>
    obtain ⟨hy, hys⟩ := List.forall_mem_cons.mp h
    rw [points_cons, against_of_gt hy, ih hys, List.length_cons, Nat.cast_succ, add_comm]

theorem points_of_eq (h : ∀ y ∈ ys, y = x) : points K x ys = ys.length / 2 := by
  induction ys with
  | nil => simp
  | cons y ys ih =>
    obtain ⟨rfl, hys⟩ := List.forall_mem_cons.mp h
    rw [points_cons, against_self, ih hys, List.length_cons, Nat.cast_succ, add_div, add_comm]

/-- **Those that tie share the middle of their ranks.** -/
theorem rank_of_ties (hys : ∀ y ∈ ys, y = x) (hzs : ∀ z ∈ zs, x < z) :
    rank K x (ys ++ zs) = (ys.length + 1) / 2 := by
  rw [rank, points_append, points_of_eq hys, points_of_lt hzs, add_zero, add_div]

theorem rank_of_gt (hys : ∀ y ∈ ys, y < x) :
    rank K x (ys ++ zs) = ys.length + rank K x zs := by
  rw [rank, rank, points_append, points_of_gt hys, add_assoc]

variable [CharZero K]

/-- **Two values share one point.** -/
theorem against_add_against : against K x y + against K y x = 1 := by
  rcases lt_trichotomy x y with h | rfl | h
  · rw [against_of_lt h, against_of_gt h, zero_add]
  · rw [against_self, add_halves]
  · rw [against_of_gt h, against_of_lt h, add_zero]

theorem points_add_sum (x : α) (ys : List α) :
    points K x ys + (ys.map fun y => against K y x).sum = ys.length := by
  induction ys with
  | nil => simp
  | cons y ys ih =>
    rw [points_cons, List.map_cons, List.sum_cons, add_add_add_comm, against_add_against, ih,
      List.length_cons, Nat.cast_succ, add_comm]

/-- **The values of two lists share a point for each pair.** -/
theorem sum_points_add (xs ys : List α) :
    (xs.map (points K · ys)).sum + (ys.map (points K · xs)).sum = xs.length * ys.length := by
  induction xs with
  | nil => simp
  | cons x xs ih =>
    have hsplit : (ys.map (points K · (x :: xs))).sum =
        (ys.map fun y => against K y x).sum + (ys.map (points K · xs)).sum := by
      rw [← List.sum_map_add]
      simp only [points_cons]
    rw [List.map_cons, List.sum_cons, hsplit, add_add_add_comm, points_add_sum, ih,
      List.length_cons, Nat.cast_succ]
    ring

/-- **The ranks of some values among themselves and others**: all but a sum that is known is what
they get against the others. -/
theorem sum_rank (xs ys : List α) : (xs.map (rank K · (xs ++ ys))).sum =
    (xs.map (points K · ys)).sum + xs.length * (xs.length + 1) / 2 := by
  have hself : (xs.map (points K · xs)).sum = xs.length * xs.length / 2 := by
    rw [eq_div_iff two_ne_zero, mul_two]
    exact sum_points_add xs xs
  have hsplit : (xs.map (rank K · (xs ++ ys))).sum =
      ((xs.map (points K · xs)).sum + (xs.map (points K · ys)).sum) +
        (xs.map fun _ => (1 / 2 : K)).sum := by
    rw [← List.sum_map_add, ← List.sum_map_add]
    simp only [rank, points_append]
  rw [hsplit, hself, List.map_const', List.sum_replicate, nsmul_eq_mul]
  ring

omit [CharZero K] in
theorem points_eq_countP (x : α) (ys : List α) :
    points K x ys = ys.countP (· < x) + (ys.countP (x = ·) : K) / 2 := by
  induction ys with
  | nil => simp
  | cons y ys ih =>
    rw [points_cons, ih, against]
    rcases lt_trichotomy y x with h | rfl | h
    · rw [if_pos h, List.countP_cons_of_pos (by simpa using h),
        List.countP_cons_of_neg (by simpa using h.ne'), Nat.cast_succ]
      ring
    · rw [if_neg (lt_irrefl y), if_pos rfl, List.countP_cons_of_neg (by simp),
        List.countP_cons_of_pos (by simp), Nat.cast_succ]
      ring
    · rw [if_neg h.not_gt, if_neg h.ne, List.countP_cons_of_neg (by simpa using h.le),
        List.countP_cons_of_neg (by simpa using h.ne)]
      ring

omit [CharZero K] in
/-- **What the values of one list get against those of another**: the pairs in which the first is
above, and half of those that tie. -/
theorem sum_points_eq_countP (xs ys : List α) : (xs.map (points K · ys)).sum =
    (xs ×ˢ ys).countP (fun z => z.2 < z.1) + ((xs ×ˢ ys).countP (fun z => z.1 = z.2) : K) / 2 := by
  induction xs with
  | nil => simp
  | cons x xs ih =>
    rw [List.map_cons, List.sum_cons, ih, points_eq_countP, List.product_cons, List.countP_append,
      List.countP_append, List.countP_map, List.countP_map, Nat.cast_add, Nat.cast_add]
    have hlt : ys.countP ((fun z : α × α => decide (z.2 < z.1)) ∘ fun y => (x, y)) =
        ys.countP (· < x) := rfl
    have heq : ys.countP ((fun z : α × α => decide (z.1 = z.2)) ∘ fun y => (x, y)) =
        ys.countP (x = ·) := rfl
    rw [hlt, heq]
    ring

end EmeraldExchange.Ranks
