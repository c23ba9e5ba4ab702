import EmeraldExchange.Lib.Binary64

/-!
# Doubles in order

Two doubles are compared, unless one of them is not a number; and a program that wants the order of
two doubles may ask for the sign of their difference. It gets the same answer
(`sign_sub`): all doubles lie on one grid, so that a difference that is not
zero is not rounded to zero.

Rounding keeps the order (`round_mono`) and changes little: by half a unit
of the last place at most (`exists_ofRat_near`), and a double not at all
(`ofRat_of_ofRat`).
-/

namespace EmeraldExchange.Binary64

/-! ### Arithmetic and comparison -/

def add : Binary64 → Binary64 → Binary64
  | .finite p, .finite q => ofRat (p + q)
  | .finite _, .infinite s | .infinite s, .finite _ => .infinite s
  | .infinite s, .infinite t => if s = t then .infinite s else .nan
  | .nan, _ | _, .nan => .nan

/-- The quotient of two doubles; a zero that divides is the positive one. -/
def div : Binary64 → Binary64 → Binary64
  | .finite p, .finite q =>
    if q = 0 then if p = 0 then .nan else .infinite (p < 0) else ofRat (p / q)
  | .finite _, .infinite _ => .finite 0
  | .infinite s, .finite q => .infinite (s != (q < 0))
  | .infinite _, .infinite _ => .nan
  | .nan, _ | _, .nan => .nan

def neg : Binary64 → Binary64
  | .nan => .nan
  | .infinite s => .infinite (!s)
  | .finite q => .finite (-q)

/-- The greater of two doubles, the other one if one is not a number. -/
def maximum (x y : Binary64) : Binary64 := if x = .nan || x.lt y then y else x

/-- One double is at most another; what is not a number is not. -/
def le (x y : Binary64) : Bool := lt x y || (x = y && x ≠ .nan)

/-- **`partial_cmp`** -/
def partialCmp (x y : Binary64) : Option Ordering :=
  if x = .nan ∨ y = .nan then none
  else if lt x y then some .lt
  else if lt y x then some .gt
  else some .eq

/-- The order of two doubles where it is decided. -/
def sign (x y : Binary64) : Option Ordering :=
  if lt x y then some .lt else if lt y x then some .gt else none

/-! ### The order -/

theorem lt_nan_left (x : Binary64) : lt .nan x = false := by
  rcases x with _ | _ | _
  · rfl
  · rfl
  · rfl

theorem lt_nan_right (x : Binary64) : lt x .nan = false := by
  rcases x with _ | _ | _
  · rfl
  · rfl
  · rfl

theorem lt_asymm {x y : Binary64} (h : lt x y = true) : lt y x = false := by
  rcases x with _ | s | p
  · rw [lt_nan_left] at h
    cases h
  · rcases y with _ | t | q
    · rw [lt_nan_right] at h
      cases h
    · cases s <;> cases t <;> first | rfl | cases h
    · cases s <;> first | rfl | cases h
  · rcases y with _ | t | q
    · rw [lt_nan_right] at h
      cases h
    · cases t <;> first | rfl | cases h
    · have hlt : p < q := of_decide_eq_true h
      exact decide_eq_false hlt.not_gt

/-- **A number lies above the lesser of two doubles, or below the greater.** -/
theorem lt_or_lt {x y z : Binary64} (hy : y ≠ .nan) (h : lt x z = true) :
    lt x y = true ∨ lt y z = true := by
  rcases y with _ | t | q
  · exact absurd rfl hy
  · rcases t with _ | _
    · -- nothing finite is above infinity
      rcases x with _ | s | p
      · rw [lt_nan_left] at h
        cases h
      · rcases s with _ | _
        · rcases z with _ | u | r
          · cases h
          · cases u <;> cases h
          · cases h
        · exact .inl rfl
      · exact .inl rfl
    · rcases z with _ | u | r
      · rw [lt_nan_right] at h
        cases h
      · rcases u with _ | _
        · exact .inr rfl
        · rcases x with _ | s | p
          · cases h
          · cases s <;> cases h
          · cases h
      · exact .inr rfl
  · rcases x with _ | s | p
    · rw [lt_nan_left] at h
      cases h
    · rcases s with _ | _
      · rcases z with _ | u | r
        · cases h
        · cases u <;> cases h
        · cases h
      · exact .inl rfl
    · rcases z with _ | u | r
      · rw [lt_nan_right] at h
        cases h
      · rcases u with _ | _
        · exact .inr rfl
        · cases h
      · have hlt : p < r := of_decide_eq_true h
        rcases lt_or_ge p q with hpq | hqp
        · exact .inl (decide_eq_true hpq)
        · exact .inr (decide_eq_true (hqp.trans_lt hlt))

theorem sign_swap (x y : Binary64) : sign x y = (sign y x).map Ordering.swap := by
  rw [sign, sign]
  rcases hxy : lt x y with _ | _
  · rcases hyx : lt y x with _ | _
    · rfl
    · rfl
  · rw [lt_asymm hxy]
    rfl

theorem sign_eq_lt {x y : Binary64} : sign x y = some .lt ↔ lt x y = true := by
  rw [sign]
  rcases lt x y with _ | _
  · rcases lt y x with _ | _
    · simp
    · simp
  · simp

theorem sign_eq_gt {x y : Binary64} : sign x y = some .gt ↔ lt y x = true := by
  rw [sign_swap, Option.map_eq_some_iff]
  constructor
  · rintro ⟨o, ho, hgt⟩
    rcases o with _ | _ | _
    · exact sign_eq_lt.mp ho
    · cases hgt
    · cases hgt
  · exact fun h => ⟨.lt, sign_eq_lt.mpr h, rfl⟩

theorem sign_eq_none {x y : Binary64} : sign x y = none ↔ lt x y = false ∧ lt y x = false := by
  rw [sign]
  rcases lt x y with _ | _
  · rcases lt y x with _ | _
    · simp
    · simp
  · simp

theorem partialCmp_filter (x y : Binary64) :
    (partialCmp x y).filter (· ≠ .eq) = sign x y := by
  rw [partialCmp, sign]
  split
  · next hnan =>
    rcases hnan with rfl | rfl
    · rw [lt_nan_left, lt_nan_right]
      rfl
    · rw [lt_nan_left, lt_nan_right]
      rfl
  · split
    · rfl
    · split
      · rfl
      · rfl

theorem partialCmp_getD (x y : Binary64) :
    (partialCmp x y).getD .eq = (sign x y).getD .eq := by
  rw [← partialCmp_filter]
  rcases partialCmp x y with _ | _ | _ | _
  · rfl
  · rfl
  · rfl
  · rfl

/-! ### Differences -/

theorem le_roundEven {z : ℤ} {q : ℚ} (h : z ≤ q) : z ≤ roundEven q := by
  have hfloor : z ≤ ⌊q⌋ := Int.le_floor.mpr h
  rw [roundEven]
  split
  · omega
  · exact hfloor

theorem roundEven_le {z : ℤ} {q : ℚ} (h : q ≤ z) : roundEven q ≤ z := by
  have hfloor : ⌊q⌋ ≤ z := Int.floor_le_iff.mpr (h.trans_lt (by linarith))
  rw [roundEven]
  split
  · next hup =>
    rcases hfloor.lt_or_eq with hlt | heq
    · omega
    · -- the integer itself is not rounded up
      have hrest : q - ⌊q⌋ ≤ 0 := by
        rw [heq]
        linarith
      rcases hup with hup | ⟨hup, -⟩
      · linarith
      · linarith
  · exact hfloor

/-! ### Rounding keeps the order -/

theorem roundEven_mono {p q : ℚ} (h : p ≤ q) : roundEven p ≤ roundEven q := by
  rcases (Int.floor_mono h).lt_or_eq with hlt | heq
  · -- an integer lies between them
    have hp : roundEven p ≤ ⌊q⌋ := roundEven_le ((Int.lt_floor_add_one p).le.trans (by
      exact_mod_cast Int.add_one_le_of_lt hlt))
    exact hp.trans (le_roundEven (Int.floor_le q))
  · rw [roundEven, roundEven, heq]
    have hrest : p - ⌊q⌋ ≤ q - ⌊q⌋ := sub_le_sub_right h _
    split
    · next hup =>
      have hup' : 1 / 2 < q - ⌊q⌋ ∨ q - ⌊q⌋ = 1 / 2 ∧ ⌊q⌋ % 2 = 1 := by
        rcases hup with hup | ⟨hup, hodd⟩
        · exact .inl (hup.trans_le hrest)
        · have hrest : 1 / 2 ≤ q - ⌊q⌋ := hup ▸ hrest
          exact hrest.lt_or_eq.imp id fun h => ⟨h.symm, hodd⟩
      rw [if_pos hup']
    · split
      · omega
      · exact le_rfl

/-- The exponent of the unit of the last place, but for the digits of the significand. -/
def exponentOf (q : ℚ) : ℤ := max (Int.log 2 |q|) (-1022)

theorem ulp_eq (q : ℚ) : ulp q = 2 ^ (exponentOf q - 52) := rfl

theorem two_zpow_exponentOf {x y : ℚ} (hx : 0 ≤ x) (h : x ≤ y)
    (hlt : exponentOf x < exponentOf y) :
    x ≤ 2 ^ exponentOf y ∧ 2 ^ exponentOf y ≤ y := by
  have hy : 0 ≤ y := hx.trans h
  have hexp : exponentOf y = Int.log 2 y := by
    rw [exponentOf, exponentOf] at hlt
    rw [exponentOf, abs_of_nonneg hy] at *
    omega
  have hpos : 0 < y := by
    rcases hy.lt_or_eq with hpos | rfl
    · exact hpos
    · rw [le_antisymm h hx] at hlt
      exact absurd hlt (lt_irrefl _)
  constructor
  · rcases hx.lt_or_eq with hxpos | rfl
    · have hlog : Int.log 2 x + 1 ≤ exponentOf y := by
        have hle : Int.log 2 x ≤ exponentOf x := by
          rw [exponentOf, abs_of_nonneg hx]
          exact le_max_left ..
        omega
      have hself : x < 2 ^ (Int.log 2 x + 1) := by
        exact_mod_cast Int.lt_zpow_succ_log_self (by norm_num) x
      exact hself.le.trans (zpow_le_zpow_right₀ (by norm_num) hlog)
    · exact zpow_nonneg (by norm_num) _
  · rw [hexp]
    exact_mod_cast Int.zpow_log_le_self (by norm_num) hpos

/-- **Rounding keeps the order of numbers that are not negative.** -/
theorem round_mono {x y : ℚ} (hx : 0 ≤ x) (h : x ≤ y) :
    roundEven (x / ulp x) * ulp x ≤ roundEven (y / ulp y) * ulp y := by
  have hux := ulp_pos x
  have huy := ulp_pos y
  rcases hx.eq_or_lt with rfl | hpos
  · have hround : 0 ≤ roundEven (y / ulp y) :=
      le_roundEven (by exact_mod_cast div_nonneg h huy.le)
    rw [zero_div, ← Int.cast_zero, roundEven_intCast, Int.cast_zero, zero_mul]
    exact mul_nonneg (by exact_mod_cast hround) huy.le
  rcases lt_trichotomy (exponentOf x) (exponentOf y) with hlt | heq | hgt
  · -- a power of two lies between them, and is a double
    obtain ⟨hlow, hhigh⟩ := two_zpow_exponentOf hx h hlt
    obtain ⟨k, hk⟩ : ∃ k : ℕ, exponentOf y = exponentOf x - 52 + (k : ℤ) :=
      ⟨(exponentOf y - exponentOf x + 52).toNat, by omega⟩
    have hpow : (2 : ℚ) ^ exponentOf y = (2 ^ k : ℕ) * ulp x := by
      rw [ulp_eq, hk, zpow_add₀ (by norm_num), zpow_natCast, mul_comm]
      push_cast
      rfl
    have hpow' : (2 : ℚ) ^ exponentOf y = (2 ^ 52 : ℕ) * ulp y := by
      rw [ulp_eq, zpow_sub₀ (by norm_num)]
      push_cast
      field_simp
    have hrx : roundEven (x / ulp x) ≤ (2 ^ k : ℕ) := by
      refine roundEven_le ?_
      rw [div_le_iff₀ hux]
      exact_mod_cast hlow.trans_eq hpow
    have hry : ((2 ^ 52 : ℕ) : ℤ) ≤ roundEven (y / ulp y) := by
      refine le_roundEven ?_
      rw [le_div_iff₀ huy]
      exact_mod_cast hpow'.symm.trans_le hhigh
    calc (roundEven (x / ulp x) : ℚ) * ulp x ≤ (2 ^ k : ℕ) * ulp x :=
          mul_le_mul_of_nonneg_right (by exact_mod_cast hrx) hux.le
      _ = (2 ^ 52 : ℕ) * ulp y := hpow.symm.trans hpow'
      _ ≤ roundEven (y / ulp y) * ulp y :=
          mul_le_mul_of_nonneg_right (by exact_mod_cast hry) huy.le
  · have hulp : ulp x = ulp y := by rw [ulp_eq, ulp_eq, heq]
    rw [hulp]
    have hmono : roundEven (x / ulp y) ≤ roundEven (y / ulp y) :=
      roundEven_mono (div_le_div_of_nonneg_right h huy.le)
    exact mul_le_mul_of_nonneg_right (by exact_mod_cast hmono) huy.le
  · exfalso
    rw [exponentOf, exponentOf, abs_of_nonneg hx, abs_of_nonneg (hx.trans h)] at hgt
    have hlog : Int.log 2 x ≤ Int.log 2 y := Int.log_mono_right hpos h
    omega

theorem ofRat_ne_nan (q : ℚ) : ofRat q ≠ .nan := by
  rw [ofRat]
  split_ifs <;> simp

theorem round_nonneg {x : ℚ} (hx : 0 ≤ x) : 0 ≤ (roundEven (x / ulp x) : ℚ) * ulp x := by
  have hround : 0 ≤ roundEven (x / ulp x) :=
    le_roundEven (by exact_mod_cast div_nonneg hx (ulp_pos x).le)
  exact mul_nonneg (by exact_mod_cast hround) (ulp_pos x).le

theorem ofRat_of_nonneg {x : ℚ} (hx : 0 ≤ x) :
    ofRat x = .infinite false ∨ ∃ r, 0 ≤ r ∧ ofRat x = .finite r := by
  have hr := round_nonneg hx
  rw [ofRat]
  split_ifs
  · rw [decide_eq_false (not_lt.mpr hr)]
    exact .inl rfl
  · exact .inr ⟨_, hr, rfl⟩

theorem lt_ofRat_of_le {x y : ℚ} (hx : 0 ≤ x) (h : x ≤ y) : lt (ofRat y) (ofRat x) = false := by
  have hle := round_mono hx h
  have hrx := round_nonneg hx
  rw [ofRat, ofRat, abs_of_nonneg hrx, abs_of_nonneg (hrx.trans hle)]
  split_ifs with hy hbig hbig
  · rw [decide_eq_false (not_lt.mpr hrx), decide_eq_false (not_lt.mpr (hrx.trans hle))]
    rfl
  · rw [decide_eq_false (not_lt.mpr (hrx.trans hle))]
    rfl
  · exact absurd (hbig.trans hle) hy
  · exact decide_eq_false (not_lt.mpr hle)

theorem lt_infinite_false (z : Binary64) : lt (.infinite false) z = false := by
  rcases z with _ | _ | _ <;> rfl

/-- **A product with a number that is not negative grows with the other.** -/
theorem mul_ofRat_lt_mono {q x y : ℚ} (hq : 0 ≤ q) (hx : 0 ≤ x) (hxy : x ≤ y) {z : Binary64}
    (h : (mul (.finite q) (ofRat x)).lt z = false) :
    (mul (.finite q) (ofRat y)).lt z = false := by
  have hmono := lt_ofRat_of_le hx hxy
  rcases ofRat_of_nonneg (hx.trans hxy) with hy | ⟨b, hb, hy⟩
  · rw [hy, mul]
    split_ifs
    · exact lt_nan_left z
    · rw [decide_eq_false (not_lt.mpr hq)]
      exact lt_infinite_false z
  · rcases ofRat_of_nonneg hx with hx' | ⟨a, ha, hx'⟩
    · rw [hy, hx'] at hmono
      cases hmono
    · rw [hx', hy] at hmono
      have hab : a ≤ b := not_lt.mp (of_decide_eq_false hmono)
      rw [hx'] at h
      rw [hy]
      by_contra hlt
      rcases lt_or_lt (ofRat_ne_nan (q * a)) (Bool.of_not_eq_false hlt) with hback | hbelow
      · have hle := lt_ofRat_of_le (mul_nonneg hq ha) (mul_le_mul_of_nonneg_left hab hq)
        exact absurd (hle.symm.trans hback) Bool.false_ne_true
      · exact absurd (h.symm.trans hbelow) Bool.false_ne_true

/-- **What is rounded to a small integer is that integer.** -/
theorem eq_of_ofRat_natCast {z : ℤ} {n : ℕ} (h : ofRat z = .finite n) (hn : n < 2 ^ 53) :
    z = n := by
  by_cases hsmall : z.natAbs ≤ 2 ^ 53
  · have hz : (z : ℚ) = n := Binary64.finite.inj ((ofRat_intCast hsmall).symm.trans h)
    exact_mod_cast hz
  · -- a greater one is rounded to `2 ^ 53` units of a half at least
    exfalso
    have hulp := ulp_pos (z : ℚ)
    have hlog : 53 ≤ Nat.log 2 z.natAbs := Nat.le_log_of_pow_le (by norm_num) (by omega)
    have hunit : ulp z = ((2 ^ (Nat.log 2 z.natAbs - 52) : ℕ) : ℚ) :=
      ulp_intCast_of_le (by omega)
    have hpow : 2 ^ 52 * 2 ^ (Nat.log 2 z.natAbs - 52) ≤ z.natAbs := by
      rw [← pow_add, show 52 + (Nat.log 2 z.natAbs - 52) = Nat.log 2 z.natAbs by omega]
      exact Nat.pow_log_le_self 2 (by omega)
    have hmag : (2 : ℚ) ^ 52 * ulp z ≤ |(z : ℚ)| := by
      rw [hunit, ← Int.cast_abs, Int.abs_eq_natAbs]
      exact_mod_cast hpow
    have htwo : (2 : ℚ) ≤ ulp z := by
      rw [hunit]
      exact_mod_cast Nat.le_self_pow (n := Nat.log 2 z.natAbs - 52) (by omega) 2
    rw [ofRat] at h
    split at h
    · cases h
    · have hr := Binary64.finite.inj h
      rcases le_total 0 z with hpos | hneg
      · rw [abs_of_nonneg (by exact_mod_cast hpos)] at hmag
        have hround : (2 ^ 52 : ℤ) ≤ roundEven (z / ulp z) := by
          refine le_roundEven ?_
          rw [le_div_iff₀ hulp]
          exact_mod_cast hmag
        have hround' : (2 : ℚ) ^ 52 ≤ roundEven (z / ulp z) := by exact_mod_cast hround
        have hge : (2 : ℚ) ^ 53 ≤ n := by
          rw [← hr]
          calc (2 : ℚ) ^ 53 = 2 ^ 52 * 2 := by norm_num
            _ ≤ roundEven (z / ulp z) * ulp z :=
              mul_le_mul hround' htwo (by norm_num) (le_trans (by norm_num) hround')
        have hge' : 2 ^ 53 ≤ n := by exact_mod_cast hge
        omega
      · rw [abs_of_nonpos (by exact_mod_cast hneg)] at hmag
        have hround : roundEven (z / ulp z) ≤ (-2 ^ 52 : ℤ) := by
          refine roundEven_le ?_
          rw [div_le_iff₀ hulp]
          push_cast
          linarith
        have hround' : (roundEven (z / ulp z) : ℚ) < 0 := by
          exact_mod_cast lt_of_le_of_lt hround (by norm_num)
        have hneg : (n : ℚ) < 0 := by
          rw [← hr]
          exact mul_neg_of_neg_of_pos hround' hulp
        exact absurd hneg (not_lt.mpr (Nat.cast_nonneg n))

/-- The distance of two neighbours next to zero. -/
def grid : ℚ := 2 ^ (-1074 : ℤ)

theorem grid_pos : 0 < grid := zpow_pos (by norm_num) _

theorem exists_ulp_eq (q : ℚ) : ∃ k : ℕ, ulp q = (2 ^ k : ℕ) * grid := by
  refine ⟨(max (Int.log 2 |q|) (-1022) - 52 + 1074).toNat, ?_⟩
  have hnonneg : 0 ≤ max (Int.log 2 |q|) (-1022) - 52 + 1074 := by omega
  rw [ulp, grid, Nat.cast_pow, Nat.cast_ofNat, ← zpow_natCast, Int.toNat_of_nonneg hnonneg,
    ← zpow_add₀ (by norm_num)]
  congr 1
  omega

/-- **Doubles lie on the grid.** -/
theorem exists_of_ofRat {q r : ℚ} (h : ofRat q = .finite r) : ∃ z : ℤ, r = z * grid := by
  rw [ofRat] at h
  split at h
  · cases h
  · obtain rfl := Binary64.finite.inj h
    obtain ⟨k, hk⟩ := exists_ulp_eq q
    refine ⟨roundEven (q / ulp q) * (2 ^ k : ℕ), ?_⟩
    rw [hk]
    push_cast
    ring

theorem ulp_le {d : ℚ} {z : ℤ} (hd : d = z * grid) (hne : z ≠ 0) : ulp d ≤ |d| := by
  have hz : (1 : ℚ) ≤ |(z : ℚ)| := by
    rw [← Int.cast_abs]
    exact_mod_cast Int.one_le_abs hne
  have habs : |d| = |(z : ℚ)| * grid := by rw [hd, abs_mul, abs_of_pos grid_pos]
  have hgrid : grid ≤ |d| := by
    rw [habs]
    exact le_mul_of_one_le_left grid_pos.le hz
  rw [ulp]
  rcases le_total (Int.log 2 |d|) (-1022) with hsmall | hlarge
  · rw [max_eq_right hsmall]
    exact hgrid
  · rw [max_eq_left hlarge]
    have hpos : 0 < |d| := grid_pos.trans_le hgrid
    calc (2 : ℚ) ^ (Int.log 2 |d| - 52) ≤ (2 : ℚ) ^ Int.log 2 |d| :=
          zpow_le_zpow_right₀ (by norm_num) (by omega)
      _ ≤ |d| := by exact_mod_cast Int.zpow_log_le_self (by norm_num) hpos

/-- **A number on the grid is rounded to one of the same sign.** -/
theorem sign_ofRat {d : ℚ} {z : ℤ} (hd : d = z * grid) :
    sign (ofRat d) (.finite 0) = sign (.finite d) (.finite 0) := by
  have hulp := ulp_pos d
  rcases lt_trichotomy z 0 with hneg | rfl | hpos
  · have hdneg : d < 0 := by
      rw [hd]
      exact mul_neg_of_neg_of_pos (by exact_mod_cast hneg) grid_pos
    have hle := ulp_le hd hneg.ne
    rw [abs_of_neg hdneg] at hle
    have hdiv : d / ulp d ≤ ((-1 : ℤ) : ℚ) := by
      rw [div_le_iff₀ hulp]
      push_cast
      linarith
    have hround : ((roundEven (d / ulp d) : ℤ) : ℚ) < 0 := by
      have hle := roundEven_le hdiv
      exact_mod_cast (by omega : roundEven (d / ulp d) < 0)
    have hr : (roundEven (d / ulp d) : ℚ) * ulp d < 0 := mul_neg_of_neg_of_pos hround hulp
    have hlt : lt (.finite d) (.finite 0) = true := decide_eq_true hdneg
    rw [sign_eq_lt.mpr hlt, sign_eq_lt, ofRat]
    split
    · exact decide_eq_true hr
    · exact decide_eq_true hr
  · have hzero : d = 0 := by rw [hd, Int.cast_zero, zero_mul]
    have hofRat : ofRat 0 = .finite 0 := by
      have h := ofRat_intCast (z := 0) (by norm_num)
      simpa using h
    rw [hzero, hofRat]
  · have hdpos : 0 < d := by
      rw [hd]
      exact mul_pos (by exact_mod_cast hpos) grid_pos
    have hle := ulp_le hd hpos.ne'
    rw [abs_of_pos hdpos] at hle
    have hdiv : ((1 : ℤ) : ℚ) ≤ d / ulp d := by
      rw [le_div_iff₀ hulp]
      push_cast
      linarith
    have hround : (0 : ℚ) < (roundEven (d / ulp d) : ℤ) := by
      have hle := le_roundEven hdiv
      exact_mod_cast (by omega : 0 < roundEven (d / ulp d))
    have hr : 0 < (roundEven (d / ulp d) : ℚ) * ulp d := mul_pos hround hulp
    have hlt : lt (.finite 0) (.finite d) = true := decide_eq_true hdpos
    rw [sign_eq_gt.mpr hlt, sign_eq_gt, ofRat]
    split
    · show (!decide _) = true
      rw [decide_eq_false hr.not_gt]
      rfl
    · exact decide_eq_true hr

/-- **A double**: what a rational is rounded to, or not a number. -/
def IsDouble (x : Binary64) : Prop := x = .nan ∨ ∃ q, x = ofRat q

/-- **The sign of a difference is the order of the two doubles.** -/
theorem sign_sub {x y : Binary64} (hx : IsDouble x) (hy : IsDouble y) :
    sign (sub x y) (.finite 0) = sign x y := by
  rcases x with _ | s | p
  · rw [sign_eq_none.mpr ⟨lt_nan_left y, lt_nan_right y⟩]
    rfl
  · rcases y with _ | t | q
    · rw [sign_eq_none.mpr ⟨lt_nan_right _, lt_nan_left _⟩]
      rfl
    · cases s <;> cases t <;> rfl
    · cases s <;> rfl
  · rcases y with _ | t | q
    · rw [sign_eq_none.mpr ⟨lt_nan_right _, lt_nan_left _⟩]
      rfl
    · cases t <;> rfl
    · obtain ⟨a, hp⟩ : ∃ a : ℤ, p = a * grid := by
        rcases hx with hx | ⟨r, hr⟩
        · cases hx
        · exact exists_of_ofRat hr.symm
      obtain ⟨b, hq⟩ : ∃ b : ℤ, q = b * grid := by
        rcases hy with hy | ⟨r, hr⟩
        · cases hy
        · exact exists_of_ofRat hr.symm
      have hdiff : p - q = ((a - b : ℤ) : ℚ) * grid := by
        rw [hp, hq]
        push_cast
        ring
      have hsign := sign_ofRat hdiff
      rw [sub, hsign, sign, sign, lt, lt, lt, lt]
      simp only [sub_neg, sub_pos]

/-! ### What rounding changes -/

theorem abs_roundEven_sub_le (q : ℚ) : |(roundEven q : ℚ) - q| ≤ 1 / 2 := by
  have hlow := Int.floor_le q
  have hhigh := Int.lt_floor_add_one q
  rw [roundEven, abs_le]
  split
  · next hup =>
    have hhalf : 1 / 2 ≤ q - ⌊q⌋ := hup.elim le_of_lt fun h => h.1.ge
    push_cast
    constructor <;> linarith
  · next hdown =>
    have hhalf : q - ⌊q⌋ ≤ 1 / 2 := not_lt.mp fun h => hdown (.inl h)
    constructor <;> linarith

theorem ofRat_zero : ofRat 0 = .finite 0 := by
  have h := ofRat_intCast (z := 0) (by decide)
  rwa [Int.cast_zero] at h

theorem ulp_le_add {q : ℚ} (hne : q ≠ 0) : ulp q ≤ |q| / 2 ^ 52 + grid := by
  have hgrid := grid_pos
  rw [ulp]
  rcases le_total (Int.log 2 |q|) (-1022) with hsmall | hlarge
  · rw [max_eq_right hsmall]
    have hnonneg : 0 ≤ |q| / 2 ^ 52 := by positivity
    exact le_add_of_nonneg_left hnonneg
  · rw [max_eq_left hlarge]
    have hself : (2 : ℚ) ^ Int.log 2 |q| ≤ |q| := by
      exact_mod_cast Int.zpow_log_le_self (by norm_num) (abs_pos.mpr hne)
    have hdiv : (2 : ℚ) ^ Int.log 2 |q| / 2 ^ (52 : ℤ) ≤ |q| / 2 ^ 52 :=
      div_le_div_of_nonneg_right hself (by norm_num)
    rw [zpow_sub₀ (by norm_num)]
    linarith

/-- **A number that is not too large is rounded to one next to it.** -/
theorem exists_ofRat_near {q : ℚ} (h : |q| ≤ 2 ^ 100) :
    ∃ r, ofRat q = .finite r ∧ |r - q| ≤ |q| / 2 ^ 53 + grid := by
  have hgrid := grid_pos
  rcases eq_or_ne q 0 with rfl | hne
  · exact ⟨0, ofRat_zero, by simpa using hgrid.le⟩
  have hu := ulp_pos q
  have hulp := ulp_le_add hne
  have hnear : |(roundEven (q / ulp q) : ℚ) * ulp q - q| ≤ |q| / 2 ^ 53 + grid := by
    have hcancel : q / ulp q * ulp q = q := div_mul_cancel₀ q hu.ne'
    calc |(roundEven (q / ulp q) : ℚ) * ulp q - q|
        = |(roundEven (q / ulp q) : ℚ) - q / ulp q| * ulp q := by
          rw [← abs_of_pos hu, ← abs_mul, abs_of_pos hu, sub_mul, hcancel]
      _ ≤ 1 / 2 * ulp q := mul_le_mul_of_nonneg_right (abs_roundEven_sub_le _) hu.le
      _ ≤ |q| / 2 ^ 53 + grid := by linarith
  refine ⟨_, ?_, hnear⟩
  rw [ofRat, if_neg (not_le.mpr ?_)]
  have htri := abs_sub_abs_le_abs_sub ((roundEven (q / ulp q) : ℚ) * ulp q) q
  have hsmall : grid ≤ 1 := zpow_le_one_of_nonpos₀ (by norm_num) (by norm_num)
  have hpow : (2 : ℚ) ^ 102 < 2 ^ 1024 := pow_lt_pow_right₀ (by norm_num) (by norm_num)
  have hdiv : |q| / 2 ^ 53 ≤ 2 ^ 100 := (div_le_self (abs_nonneg q) (by norm_num)).trans h
  refine lt_of_le_of_lt ?_ hpow
  calc |(roundEven (q / ulp q) : ℚ) * ulp q| ≤ 2 ^ 100 + 2 ^ 100 + 1 := by linarith
    _ ≤ 2 ^ 102 := by norm_num

end EmeraldExchange.Binary64
