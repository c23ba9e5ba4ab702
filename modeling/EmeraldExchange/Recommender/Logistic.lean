import EmeraldExchange.Recommender.Solver

/-!
# The logistic fit

The weights of a household are fitted by Newton's method: each step adds up the gradient and the
Hessian of the samples, pulls both towards the prior, and solves a linear system for the change of
the weights. The exponential is a parameter, of which only its sign is used.

The Hessian of the samples is a sum of squares with weights that are not negative. With the ridge on
its diagonal its quadratic form is zero at zero only
(`Recommender.eq_zero_of_form_newtonSystem`), so that every system a step solves is
regular.
-/

namespace EmeraldExchange

namespace Recommender

variable {K : Type*} [Field K] [LinearOrder K]

/-! ### The code -/

/-- The numerals that other fields have too. -/
local instance atLeastTwo_two : Nat.AtLeastTwo 2 := ⟨le_rfl⟩

local instance atLeastTwo_ten : Nat.AtLeastTwo 10 := ⟨by decide⟩

/-- `NF` -/
abbrev nf : ℕ := 18

/-- `PRIOR` -/
def prior : Fin nf → K :=
  ![3 / 10, 5 / 10, -(3 / 10), -(5 / 10), 2 / 10, -(2 / 10), 2 / 10, -(2 / 10), 2 / 10, -(2 / 10),
    5 / 10, 3 / 10, 2 / 10, 3 / 10, 2 / 10, 2 / 10, 1 / 10, 0]

def withBias (row : Fin nf → K) (last : K) (c : Fin (nf + 1)) : K :=
  if h : c.val < nf then row ⟨c, h⟩ else last

/-- How strongly a weight is pulled towards the prior. -/
def reg (ridge : K) (c : Fin (nf + 1)) : K := if c.val < nf then ridge else 1 / 1000000

/-- `f64::clamp` -/
def clampTo (lower upper t : K) : K := if t < lower then lower else if upper < t then upper else t

/-- The weight of a sample, by which the classes are balanced. -/
def sampleWeight (n pos y : K) : K :=
  if y = 1 then n / (2 * max pos 1) else n / (2 * max (n - pos) 1)

def probability (exp : K → K) (t : K) : K := 1 / (1 + exp (-clampTo (-30) 30 t))

/-- One sample is added to the Hessian and to the gradient. -/
def addSample (exp : K → K) (n pos : K) (w : Fin (nf + 1) → K) (s : LinearSystem (nf + 1) K)
    (sample : (Fin nf → K) × K) : LinearSystem (nf + 1) K :=
  let xr := withBias sample.1 1
  let p := probability exp (∑ c, xr c * w c)
  let sw := sampleWeight n pos sample.2
  let g := sw * (p - sample.2)
  let h := sw * p * (1 - p)
  { a := fun i j => s.a i j + xr i * h * xr j
    b := fun i => s.b i + xr i * g }

/-- **The system of one Newton step**: the Hessian and the gradient at some weights. -/
def newtonSystem (exp : K → K) (x : List (Fin nf → K)) (y : List K) (ridge : K)
    (w : Fin (nf + 1) → K) : LinearSystem (nf + 1) K :=
  let sums := (x.zip y).foldl (addSample exp x.length y.sum w) ⟨fun _ _ => 0, fun _ => 0⟩
  { a := fun i j => if i = j then sums.a i j + reg ridge i else sums.a i j
    b := fun i => sums.b i + reg ridge i * (w i - withBias prior 0 i) }

def biggest (step : Fin (nf + 1) → K) : K :=
  (List.finRange (nf + 1)).foldl (fun big c => max big |step c|) 0

/-- Newton's method, for some steps at most. -/
def newton (exp : K → K) (x : List (Fin nf → K)) (y : List K) (ridge : K) :
    ℕ → (Fin (nf + 1) → K) → Option (Fin (nf + 1) → K)
  | 0, w => some w
  | k + 1, w =>
    let s := newtonSystem exp x y ridge w
    (solve s.a s.b).bind fun step =>
      let w' := fun c => w c - step c
      if biggest step < 1 / 10000000 then some w' else newton exp x y ridge k w'

/-- **`fit_logistic`** -/
def fitLogistic (exp : K → K) (x : List (Fin nf → K)) (y : List K) (ridge : K) :
    Option (Fin (nf + 1) → K) :=
  newton exp x y ridge 50 (withBias prior 0)

/-! ### The quadratic form of the Hessian -/

variable [IsStrictOrderedRing K] {exp : K → K} {x : List (Fin nf → K)} {y : List K}
  {ridge n pos : K} {w v : Fin (nf + 1) → K}

theorem reg_pos (h : 0 < ridge) (c : Fin (nf + 1)) : 0 < reg ridge c := by
  unfold reg
  split_ifs
  · exact h
  · positivity

theorem sampleWeight_nonneg (hn : 0 ≤ n) (t : K) : 0 ≤ sampleWeight n pos t := by
  have hdenominator : ∀ size : K, 0 ≤ 2 * max size 1 :=
    fun size => mul_nonneg zero_le_two (zero_le_one.trans (le_max_right size 1))
  unfold sampleWeight
  split_ifs
  · exact div_nonneg hn (hdenominator _)
  · exact div_nonneg hn (hdenominator _)

theorem probability_nonneg (hexp : ∀ t, 0 < exp t) (t : K) : 0 ≤ probability exp t :=
  div_nonneg zero_le_one (add_nonneg zero_le_one (hexp _).le)

theorem probability_le_one (hexp : ∀ t, 0 < exp t) (t : K) : probability exp t ≤ 1 :=
  div_le_one_of_le₀ (le_add_of_nonneg_right (hexp _).le) (add_nonneg zero_le_one (hexp _).le)

/-- **A sample adds a square** to the form, with a weight that is not negative. -/
theorem form_le_addSample (hexp : ∀ t, 0 < exp t) (hn : 0 ≤ n) (s : LinearSystem (nf + 1) K)
    (sample : (Fin nf → K) × K) : s.form v ≤ (addSample exp n pos w s sample).form v := by
  set xr := withBias sample.1 1 with hxr
  set p := probability exp (∑ c, xr c * w c) with hp
  set h := sampleWeight n pos sample.2 * p * (1 - p) with hh
  have hpos : 0 ≤ h := mul_nonneg
    (mul_nonneg (sampleWeight_nonneg hn _) (probability_nonneg hexp _))
    (sub_nonneg.mpr (probability_le_one hexp _))
  have hform : (addSample exp n pos w s sample).form v =
      s.form v + h * ((∑ i, v i * xr i) * ∑ j, xr j * v j) := by
    calc (addSample exp n pos w s sample).form v
        = ∑ i, v i * ∑ j, (s.a i j + xr i * h * xr j) * v j := rfl
      _ = ∑ i, (v i * ∑ j, s.a i j * v j + h * (v i * xr i * ∑ j, xr j * v j)) := by
          refine Finset.sum_congr rfl fun i _ => ?_
          simp only [add_mul, Finset.sum_add_distrib, mul_add, Finset.mul_sum]
          refine congrArg₂ _ rfl (Finset.sum_congr rfl fun j _ => ?_)
          ring
      _ = s.form v + h * ((∑ i, v i * xr i) * ∑ j, xr j * v j) := by
          rw [Finset.sum_add_distrib, ← Finset.mul_sum, ← Finset.sum_mul]
          rfl
  have hsquare : ∑ i, v i * xr i = ∑ j, xr j * v j :=
    Finset.sum_congr rfl fun i _ => mul_comm _ _
  rw [hform, hsquare]
  exact le_add_of_nonneg_right (mul_nonneg hpos (mul_self_nonneg _))

theorem form_le_foldl (hexp : ∀ t, 0 < exp t) (hn : 0 ≤ n) :
    ∀ (samples : List ((Fin nf → K) × K)) (s : LinearSystem (nf + 1) K),
      s.form v ≤ (samples.foldl (addSample exp n pos w) s).form v
  | [], _ => le_rfl
  | sample :: samples, s =>
    (form_le_addSample hexp hn s sample).trans (form_le_foldl hexp hn samples _)

/-- **The Hessian is positive definite** with a positive ridge. -/
theorem eq_zero_of_form_newtonSystem (hexp : ∀ t, 0 < exp t) (hridge : 0 < ridge)
    (h : (newtonSystem exp x y ridge w).form v = 0) : v = 0 := by
  set sums := (x.zip y).foldl (addSample exp x.length y.sum w) ⟨fun _ _ => 0, fun _ => 0⟩
    with hsums
  have hform : (newtonSystem exp x y ridge w).form v =
      sums.form v + ∑ i, reg ridge i * (v i * v i) := by
    calc (newtonSystem exp x y ridge w).form v
        = ∑ i, v i * ∑ j, (if i = j then sums.a i j + reg ridge i else sums.a i j) * v j := rfl
      _ = ∑ i, (v i * ∑ j, sums.a i j * v j + reg ridge i * (v i * v i)) := by
          refine Finset.sum_congr rfl fun i _ => ?_
          have hsplit : ∀ j, (if i = j then sums.a i j + reg ridge i else sums.a i j) * v j =
              sums.a i j * v j + if i = j then reg ridge i * v j else 0 := by
            intro j
            split_ifs
            · rw [add_mul]
            · rw [add_zero]
          simp only [hsplit, Finset.sum_add_distrib, Finset.sum_ite_eq, Finset.mem_univ, if_true]
          ring
      _ = sums.form v + ∑ i, reg ridge i * (v i * v i) := Finset.sum_add_distrib
  have hsumsPos : 0 ≤ sums.form v := by
    refine le_trans (le_of_eq ?_) (form_le_foldl hexp (Nat.cast_nonneg _) _ _)
    simp [LinearSystem.form]
  have hterm : ∀ i, 0 ≤ reg ridge i * (v i * v i) :=
    fun i => mul_nonneg (reg_pos hridge i).le (mul_self_nonneg _)
  have hzero : ∑ i, reg ridge i * (v i * v i) = 0 :=
    le_antisymm (by linarith) (Finset.sum_nonneg fun i _ => hterm i)
  funext i
  have hi := (Finset.sum_eq_zero_iff_of_nonneg fun i _ => hterm i).mp hzero i (Finset.mem_univ i)
  exact mul_self_eq_zero.mp ((mul_eq_zero.mp hi).resolve_left (reg_pos hridge i).ne')

/-! ### Every solve succeeds -/

/-- The solver returns a vector, and this is the only solution. -/
def SolvesExactly {n : ℕ} (a : Fin n → Fin n → K) (b : Fin n → K) : Prop :=
  ∃ x, solve a b = some x ∧ ∀ x', (∀ r, ∑ c, a r c * x' c = b r) ↔ x' = x

theorem solvesExactly_of_regular {n : ℕ} {s : LinearSystem n K} (h : s.Regular) :
    SolvesExactly s.a s.b := by
  obtain ⟨x, hx, hrows⟩ := exists_solve h
  refine ⟨x, hx, fun x' => ⟨fun hx' => ?_, fun heq => heq ▸ hrows⟩⟩
  have hdiff : s.Solves (x' - x) 0 := by
    rw [LinearSystem.solves_iff]
    intro r
    simp only [Pi.sub_apply, mul_sub, Finset.sum_sub_distrib, hx' r, hrows r, sub_self, zero_mul]
  exact sub_eq_zero.mp (h _ hdiff)

theorem regular_newtonSystem (hexp : ∀ t, 0 < exp t) (hridge : 0 < ridge) :
    (newtonSystem exp x y ridge w).Regular :=
  LinearSystem.regular_of_form fun _ h => eq_zero_of_form_newtonSystem hexp hridge h

theorem exists_newton (hexp : ∀ t, 0 < exp t) (hridge : 0 < ridge) :
    ∀ (k : ℕ) (w : Fin (nf + 1) → K), ∃ w', newton exp x y ridge k w = some w'
  | 0, w => ⟨w, rfl⟩
  | k + 1, w => by
    obtain ⟨step, hstep, -⟩ :=
      exists_solve (regular_newtonSystem (x := x) (y := y) (w := w) hexp hridge)
    simp only [newton, hstep, Option.bind_some]
    split_ifs
    · exact ⟨_, rfl⟩
    · exact exists_newton hexp hridge k _

/-- **The solver solves every nonsingular system**, and so every system of a fit with a positive
ridge. -/
theorem solve_solvesExactly :
    (∀ (n : ℕ) (a : Fin n → Fin n → K) (b : Fin n → K), (Matrix.of a).det ≠ 0 →
      SolvesExactly a b) ∧
    ∀ exp : K → K, (∀ t, 0 < exp t) → ∀ (x : List (Fin nf → K)) (y : List K) (ridge : K),
      0 < ridge →
      (∀ w, SolvesExactly (newtonSystem exp x y ridge w).a (newtonSystem exp x y ridge w).b) ∧
      (fitLogistic exp x y ridge).isSome := by
  refine ⟨fun n a b h =>
    solvesExactly_of_regular (s := ⟨a, b⟩) (LinearSystem.regular_iff.mpr h), ?_⟩
  intro exp hexp x y ridge hridge
  refine ⟨fun w => solvesExactly_of_regular (regular_newtonSystem hexp hridge), ?_⟩
  obtain ⟨w, hw⟩ := exists_newton (x := x) (y := y) hexp hridge 50 (withBias prior 0)
  rw [fitLogistic, hw]
  rfl

/-- A system whose rows are exchanged, and a fit of one sample of each class. -/
theorem solve_solvesExactly_exchanged :
    SolvesExactly (K := ℚ) ![![0, 1], ![2, 3]] ![1, 2] ∧
    (fitLogistic (fun _ => (1 : ℚ)) [fun _ => 1, fun _ => 2] [1, 0] 10).isSome := by
  refine ⟨solve_solvesExactly.1 2 _ _ ?_, ?_⟩
  · rw [Matrix.det_fin_two_of]
    norm_num
  · exact (solve_solvesExactly.2 (fun _ => 1) (fun _ => one_pos) _ _ 10 (by norm_num)).2

end Recommender

end EmeraldExchange
