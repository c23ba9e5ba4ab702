import Mathlib.Data.List.FinRange
import Mathlib.Data.List.MinMax
import EmeraldExchange.Lib.LinearSystem
import EmeraldExchange.Lib.Runs

/-!
# The linear solver

The ranker's Newton step solves a system of linear equations by elimination with partial pivoting.
Here the elimination runs over a field, so that no rounding takes place, and a division by zero
makes it fail.

An elimination keeps the system the same and clears its columns one after the other
(`Recommender.Cleared`). In a regular system whose first columns are cleared the
next column cannot be zero from the diagonal on, because the rows above it would be solved by back
substitution (`Recommender.exists_backSubstitute`) with a one for that column. So
every pivot found is not zero, and the elimination ends.
-/

namespace EmeraldExchange

namespace Recommender

variable {n : ℕ} {K : Type*} [Field K]

/-! ### The code -/

def divide [DecidableEq K] (x y : K) : Option K := if y = 0 then none else some (x / y)

/-- A row with a multiple of the row of the column subtracted, from that column on. -/
def subtractRow [DecidableEq K] (col r : Fin n) (f : K) (s : LinearSystem n K) :
    LinearSystem n K where
  a i c := if i = r ∧ col ≤ c then s.a r c - f * s.a col c else s.a i c
  b i := if i = r then s.b r - f * s.b col else s.b i

def eliminateRow [DecidableEq K] (col : Fin n) (s : LinearSystem n K) (r : Fin n) :
    Option (LinearSystem n K) :=
  (divide (s.a r col) (s.a col col)).map fun f =>
    if f ≠ 0 then subtractRow col r f s else s

def rowsFrom (col : Fin n) : List (Fin n) := (List.finRange n).filter (col ≤ ·)

def rowsBelow (col : Fin n) : List (Fin n) := (List.finRange n).filter (col < ·)

/-- What the row holds in the columns after its own. -/
def tailSum (s : LinearSystem n K) (x : Fin n → K) (r : Fin n) : K :=
  ∑ c ∈ Finset.univ.filter (r < ·), s.a r c * x c

def substituteRow [DecidableEq K] (s : LinearSystem n K) (x : Fin n → K) (r : Fin n) :
    Option (Fin n → K) :=
  (divide (s.b r - tailSum s x r) (s.a r r)).map (Function.update x r)

/-- The back substitution, from the last row up. -/
def backSubstitute [DecidableEq K] (s : LinearSystem n K) : Option (Fin n → K) :=
  exec (substituteRow s) 0 (List.finRange n).reverse

section Ordered

variable [LinearOrder K]

/-- The row with the greatest entry of the column, from the diagonal on; the first of several. -/
def pivot (a : Fin n → Fin n → K) (col : Fin n) : Option (Fin n) :=
  (rowsFrom col).argmax fun i => |a i col|

def eliminateColumn (s : LinearSystem n K) (col : Fin n) : Option (LinearSystem n K) :=
  (pivot s.a col).bind fun piv => exec (eliminateRow col) (s.swap col piv) (rowsBelow col)

/-- **The solver.** -/
def solve (a : Fin n → Fin n → K) (b : Fin n → K) : Option (Fin n → K) :=
  (exec eliminateColumn ⟨a, b⟩ (List.finRange n)).bind backSubstitute

end Ordered

/-! ### The order of the rows -/

variable {r p c col : Fin n} {done rest : List (Fin n)}

theorem mem_rowsFrom : r ∈ rowsFrom col ↔ col ≤ r := by simp [rowsFrom]

theorem mem_rowsBelow : r ∈ rowsBelow col ↔ col < r := by simp [rowsBelow]

theorem mem_done_of_lt (h : List.finRange n = done ++ r :: rest) (hc : c < r) : c ∈ done := by
  have hmem : c ∈ done ++ r :: rest := h ▸ List.mem_finRange c
  have hsorted := List.pairwise_lt_finRange n
  rw [h, List.pairwise_append, List.pairwise_cons] at hsorted
  rcases List.mem_append.mp hmem with hdone | hrest
  · exact hdone
  · rcases List.mem_cons.mp hrest with rfl | hrest
    · exact absurd hc (lt_irrefl _)
    · exact absurd (hsorted.2.1.1 c hrest) (not_lt.mpr hc.le)

theorem lt_of_mem_done (h : List.finRange n = done ++ r :: rest) (hc : c ∈ done) : c < r := by
  have hsorted := List.pairwise_lt_finRange n
  rw [h, List.pairwise_append] at hsorted
  exact hsorted.2.2 c hc r List.mem_cons_self

theorem lt_of_mem_done_reverse (h : (List.finRange n).reverse = done ++ r :: rest)
    (hc : c ∈ done) : r < c := by
  have hsorted := List.pairwise_reverse.mpr (List.pairwise_lt_finRange n)
  rw [h, List.pairwise_append] at hsorted
  exact hsorted.2.2 c hc r List.mem_cons_self

/-! ### Cleared columns -/

/-- **A cleared column**: not zero on the diagonal, zero below it. -/
def Cleared (s : LinearSystem n K) (c : Fin n) : Prop := s.a c c ≠ 0 ∧ ∀ r, c < r → s.a r c = 0

variable {s s' : LinearSystem n K} {x : Fin n → K} {f v : K}

theorem cleared_swap (hp : col ≤ p) (hc : c < col) (hs : Cleared s c) :
    Cleared (s.swap col p) c := by
  have hfixed : Equiv.swap col p c = c :=
    Equiv.swap_apply_of_ne_of_ne hc.ne (hc.trans_le hp).ne
  refine ⟨?_, fun r hr => ?_⟩
  · show s.a (Equiv.swap col p c) c ≠ 0
    rw [hfixed]
    exact hs.1
  · refine hs.2 _ ?_
    rw [Equiv.swap_apply_def]
    split_ifs
    · exact hc.trans_le hp
    · exact hc
    · exact hr

/-! ### Back substitution -/

theorem sum_row_eq (hzero : ∀ c, c < r → s.a r c = 0) :
    ∑ c, s.a r c * x c = s.a r r * x r + tailSum s x r := by
  have hpart : ∀ c, s.a r c * x c =
      (if c = r then s.a r c * x c else 0) + if r < c then s.a r c * x c else 0 := by
    intro c
    rcases lt_trichotomy c r with hc | rfl | hc
    · rw [hzero c hc, zero_mul, if_neg hc.ne, if_neg hc.asymm, add_zero]
    · rw [if_pos rfl, if_neg (lt_irrefl _), add_zero]
    · rw [if_neg hc.ne', if_pos hc, zero_add]
  calc ∑ c, s.a r c * x c
      = ∑ c, ((if c = r then s.a r c * x c else 0) + if r < c then s.a r c * x c else 0) :=
        Finset.sum_congr rfl fun c _ => hpart c
    _ = s.a r r * x r + tailSum s x r := by
        rw [Finset.sum_add_distrib, Finset.sum_ite_eq' Finset.univ r, if_pos (Finset.mem_univ r),
          tailSum, Finset.sum_filter]

theorem tailSum_update : tailSum s (Function.update x r v) r = tailSum s x r := by
  refine Finset.sum_congr rfl fun c hc => ?_
  rw [Function.update_of_ne (Finset.mem_filter.mp hc).2.ne']

section Divide

variable [DecidableEq K]

theorem divide_of_ne_zero {y : K} (hy : y ≠ 0) (z : K) : divide z y = some (z / y) := if_neg hy

/-- **Back substitution** solves a system all of whose columns are cleared. -/
theorem exists_backSubstitute (hs : ∀ c, Cleared s c) :
    ∃ x, backSubstitute s = some x ∧ ∀ r, ∑ c, s.a r c * x c = s.b r := by
  have hloop := @exists_exec _ _ (substituteRow s) (0 : Fin n → K)
    (fun done x => ∀ r ∈ done, ∑ c, s.a r c * x c = s.b r)
    (List.finRange n).reverse (by simp) ?_
  · obtain ⟨x, hx, hrows⟩ := hloop
    exact ⟨x, hx, fun r => hrows r (List.mem_reverse.mpr (List.mem_finRange r))⟩
  · intro done r rest x has hdone
    have hzero : ∀ c, c < r → s.a r c = 0 := fun c hc => (hs c).2 r hc
    refine ⟨_, by rw [substituteRow, divide_of_ne_zero (hs r).1, Option.map_some], ?_⟩
    intro i hi
    rcases List.mem_append.mp hi with hi | hi
    · -- a row done before does not read this column
      rw [← hdone i hi]
      refine Finset.sum_congr rfl fun c _ => ?_
      by_cases hc : c = r
      · rw [hc, (hs r).2 i (lt_of_mem_done_reverse has hi), zero_mul, zero_mul]
      · rw [Function.update_of_ne hc]
    · obtain rfl := List.mem_singleton.mp hi
      rw [sum_row_eq hzero, tailSum_update, Function.update_self, mul_div_cancel₀ _ (hs i).1,
        sub_add_cancel]

/-! ### One row -/

theorem subtractRow_a_of_ne {i : Fin n} (hi : i ≠ r) : (subtractRow col r f s).a i c = s.a i c :=
  if_neg fun h => hi h.1

theorem subtractRow_a_of_lt {i : Fin n} (hc : c < col) :
    (subtractRow col r f s).a i c = s.a i c :=
  if_neg fun h => absurd h.2 (not_le.mpr hc)

/-- **The multiple of a row is subtracted as a whole**, where the columns before are zero in it. -/
theorem same_subtractRow (hne : r ≠ col) (hzero : ∀ c, c < col → s.a col c = 0) :
    LinearSystem.Same s (subtractRow col r f s) := by
  have ha : ∀ c, (subtractRow col r f s).a r c = s.a r c - f * s.a col c := by
    intro c
    by_cases hc : col ≤ c
    · exact if_pos ⟨rfl, hc⟩
    · rw [subtractRow_a_of_lt (not_le.mp hc), hzero c (not_le.mp hc), mul_zero, sub_zero]
  have hb : (subtractRow col r f s).b r = s.b r - f * s.b col := if_pos rfl
  refine LinearSystem.same_of_subtract (f := f) hne ?_ ?_
  · intro x t
    simp only [LinearSystem.residual, ha, hb, sub_mul, Finset.sum_sub_distrib, mul_sub,
      Finset.mul_sum, mul_assoc]
    ring
  · intro i hi x t
    have hbi : (subtractRow col r f s).b i = s.b i := if_neg hi
    simp only [LinearSystem.residual, subtractRow_a_of_ne hi, hbi]

/-- **One row is eliminated**: the system stays the same, the row is zero in the column, and nothing
else changes in the columns up to it. -/
theorem exists_eliminateRow (hr : col < r) (hpivot : s.a col col ≠ 0)
    (hzero : ∀ c, c < col → s.a col c = 0) :
    ∃ s', eliminateRow col s r = some s' ∧ LinearSystem.Same s s' ∧ s'.a r col = 0 ∧
      (∀ i c, c < col → s'.a i c = s.a i c) ∧ ∀ i, i ≠ r → ∀ c, s'.a i c = s.a i c := by
  rw [eliminateRow, divide_of_ne_zero hpivot, Option.map_some]
  by_cases hf : s.a r col / s.a col col = 0
  · refine ⟨_, rfl, ?_⟩
    rw [if_neg (not_not.mpr hf)]
    refine ⟨LinearSystem.Same.refl s, ?_, fun _ _ _ => rfl, fun _ _ _ => rfl⟩
    exact (div_eq_zero_iff.mp hf).resolve_right hpivot
  · refine ⟨_, rfl, ?_⟩
    rw [if_pos hf]
    refine ⟨same_subtractRow hr.ne' hzero, ?_, fun i c hc => subtractRow_a_of_lt hc,
      fun i hi c => subtractRow_a_of_ne hi⟩
    rw [show (subtractRow col r (s.a r col / s.a col col) s).a r col =
        s.a r col - s.a r col / s.a col col * s.a col col from if_pos ⟨rfl, le_rfl⟩,
      div_mul_cancel₀ _ hpivot, sub_self]

/-- **One column is eliminated** below a pivot that is not zero. -/
theorem exists_exec_eliminateRow (hpivot : s.a col col ≠ 0)
    (hcleared : ∀ c, c < col → Cleared s c) :
    ∃ s', exec (eliminateRow col) s (rowsBelow col) = some s' ∧ LinearSystem.Same s s' ∧
      ∀ c, c ≤ col → Cleared s' c := by
  have hloop := @exists_exec _ _ (eliminateRow col) s
    (fun done s' => LinearSystem.Same s s' ∧ (∀ i c, c < col → s'.a i c = s.a i c) ∧
      (∀ c, s'.a col c = s.a col c) ∧ ∀ i ∈ done, s'.a i col = 0)
    (rowsBelow col)
    ⟨LinearSystem.Same.refl s, fun _ _ _ => rfl, fun _ => rfl, by simp⟩ ?_
  · obtain ⟨s', hs', hsame, hbefore, hrow, hdone⟩ := hloop
    refine ⟨s', hs', hsame, fun c hc => ?_⟩
    rcases hc.lt_or_eq with hc | rfl
    · refine ⟨?_, fun i hi => ?_⟩
      · rw [hbefore c c hc]
        exact (hcleared c hc).1
      · rw [hbefore i c hc]
        exact (hcleared c hc).2 i hi
    · refine ⟨?_, fun i hi => hdone i (mem_rowsBelow.mpr hi)⟩
      rw [hrow c]
      exact hpivot
  · rintro done r rest v has ⟨hsame, hbefore, hrow, hdone⟩
    have hr : col < r := mem_rowsBelow.mp (has ▸ List.mem_append_right _ List.mem_cons_self)
    obtain ⟨w, hw, hsame', hzero', hbefore', hothers⟩ := exists_eliminateRow (s := v) hr
      (by rwa [hrow col]) fun c hc => by rw [hrow c, (hcleared c hc).2 col hc]
    refine ⟨w, hw, hsame.trans hsame', fun i c hc => ?_, fun c => ?_, fun i hi => ?_⟩
    · rw [hbefore' i c hc, hbefore i c hc]
    · rw [hothers col hr.ne c, hrow c]
    · by_cases hir : i = r
      · rw [hir, hzero']
      · have hi : i ∈ done := (List.mem_append.mp hi).resolve_right
          fun h => hir (List.mem_singleton.mp h)
        rw [hothers i hir, hdone i hi]

/-! ### The pivot -/

/-- **A pivot exists**: in a regular system whose columns before one are cleared, this one is not
zero from the diagonal on. -/
theorem exists_ne_zero (hs : s.Regular) (hcleared : ∀ c, c < col → Cleared s c) :
    ∃ i, col ≤ i ∧ s.a i col ≠ 0 := by
  by_contra hnone
  have hcol : ∀ i, col ≤ i → s.a i col = 0 :=
    fun i hi => by_contra fun h => hnone ⟨i, hi, h⟩
  -- the rows above are solved for a one in this column and zeros after it
  let above : LinearSystem n K :=
    { a := fun i c => if i < col then s.a i c else if i = c then 1 else 0
      b := fun i => if i = col then 1 else 0 }
  have habove : ∀ c, Cleared above c := by
    intro c
    by_cases hc : c < col
    · refine ⟨by simpa [above, hc] using (hcleared c hc).1, fun r hr => ?_⟩
      by_cases hrc : r < col
      · simpa [above, hrc] using (hcleared c hc).2 r hr
      · simp [above, hrc, hr.ne']
    · refine ⟨by simp [above, hc], fun r hr => ?_⟩
      have hrc : ¬ r < col := fun h => hc (hr.trans h)
      simp [above, hrc, hr.ne']
  obtain ⟨x, -, hx⟩ := exists_backSubstitute habove
  have hfrom : ∀ r, col ≤ r → x r = if r = col then 1 else 0 := by
    intro r hr
    have hrow := hx r
    simpa [above, not_lt.mpr hr] using hrow
  have hsolves : s.Solves x 0 := by
    rw [LinearSystem.solves_iff]
    intro r
    rw [zero_mul]
    by_cases hr : r < col
    · have hrow := hx r
      simpa [above, hr, hr.ne] using hrow
    · refine Finset.sum_eq_zero fun c _ => ?_
      rcases lt_trichotomy c col with hc | rfl | hc
      · rw [(hcleared c hc).2 r (hc.trans_le (not_lt.mp hr)), zero_mul]
      · rw [hcol r (not_lt.mp hr), zero_mul]
      · rw [hfrom c hc.le, if_neg hc.ne', mul_zero]
  have hone := hfrom col le_rfl
  rw [hs x hsolves, if_pos rfl] at hone
  exact zero_ne_one hone

end Divide

section Ordered

variable [LinearOrder K] [IsStrictOrderedRing K]

/-- **The pivot chosen is not zero** where there is one that is not. -/
theorem exists_pivot (h : ∃ i, col ≤ i ∧ s.a i col ≠ 0) :
    ∃ piv, pivot s.a col = some piv ∧ col ≤ piv ∧ s.a piv col ≠ 0 := by
  obtain ⟨i, hi, hne⟩ := h
  cases hpiv : pivot s.a col with
  | none =>
    have hempty : rowsFrom col = [] := List.argmax_eq_none.mp hpiv
    exact absurd (mem_rowsFrom.mpr hi) (by simp [hempty])
  | some piv =>
    have hle : |s.a i col| ≤ |s.a piv col| :=
      List.le_of_mem_argmax (f := fun i => |s.a i col|) (mem_rowsFrom.mpr hi) hpiv
    refine ⟨piv, rfl, mem_rowsFrom.mp (List.argmax_mem hpiv), fun hzero => hne ?_⟩
    rw [hzero, abs_zero] at hle
    exact abs_nonpos_iff.mp hle

/-- **One column is eliminated** of a regular system whose columns before it are cleared. -/
theorem exists_eliminateColumn (hs : s.Regular) (hcleared : ∀ c, c < col → Cleared s c) :
    ∃ s', eliminateColumn s col = some s' ∧ LinearSystem.Same s s' ∧
      ∀ c, c ≤ col → Cleared s' c := by
  obtain ⟨piv, hpiv, hle, hne⟩ := exists_pivot (exists_ne_zero hs hcleared)
  have hpivot : (s.swap col piv).a col col ≠ 0 := by
    show s.a (Equiv.swap col piv col) col ≠ 0
    rwa [Equiv.swap_apply_left]
  obtain ⟨s', hs', hsame, hclear⟩ := exists_exec_eliminateRow hpivot
    fun c hc => cleared_swap hle hc (hcleared c hc)
  exact ⟨s', by rw [eliminateColumn, hpiv, Option.bind_some, hs'],
    (LinearSystem.same_swap col piv).trans hsame, hclear⟩

/-! ### The solver -/

/-- **A regular system is solved**, without a division by zero. -/
theorem exists_solve (h : s.Regular) :
    ∃ x, solve s.a s.b = some x ∧ ∀ r, ∑ c, s.a r c * x c = s.b r := by
  have hloop := @exists_exec _ _ eliminateColumn s
    (fun done s' => LinearSystem.Same s s' ∧ ∀ c ∈ done, Cleared s' c)
    (List.finRange n) ⟨LinearSystem.Same.refl s, by simp⟩ ?_
  · obtain ⟨s', hs', hsame, hcleared⟩ := hloop
    obtain ⟨x, hx, hrows⟩ := exists_backSubstitute fun c => hcleared c (List.mem_finRange c)
    refine ⟨x, by rw [solve, hs', Option.bind_some, hx], ?_⟩
    have hsolves : s'.Solves x 1 :=
      LinearSystem.solves_iff.mpr fun r => by rw [hrows r, one_mul]
    intro r
    rw [LinearSystem.solves_iff.mp ((hsame x 1).mpr hsolves) r, one_mul]
  · rintro done r rest v has ⟨hsame, hdone⟩
    obtain ⟨w, hw, hsame', hcleared⟩ := exists_eliminateColumn (hsame.regular h)
      fun c hc => hdone c (mem_done_of_lt has hc)
    refine ⟨w, hw, hsame.trans hsame', fun c hc => hcleared c ?_⟩
    rcases List.mem_append.mp hc with hc | hc
    · exact (lt_of_mem_done has hc).le
    · exact (List.mem_singleton.mp hc).le

end Ordered

end Recommender

end EmeraldExchange
