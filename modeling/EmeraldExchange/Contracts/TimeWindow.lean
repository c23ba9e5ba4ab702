import EmeraldExchange.Contracts.StreamToken

/-!
# The time window of a stream token, in exact arithmetic

`enforce_time_window` subtracts and adds 64-bit integers that came out of a token. A release build
wraps around where a result does not fit (`enforceTimeWindow`); a build
that checks for overflow panics there (`enforceTimeWindowChecked`). The
two agree where nothing overflows, and then the accepted claims are those whose window holds the
clock in exact arithmetic (`Inside`).

The lifetime is computed before anything bounds its ends, so claims that are minted before 1970 and
never expire wrap around into a short life. `inside_of_accepted_iff` says
for which claims and clocks nothing overflows.
-/

namespace EmeraldExchange.Contracts

/-! ### Arithmetic that is checked for overflow -/

/-- A number, if 64 bits hold it with a sign; else the computation panics. -/
def checked (z : ℤ) : Option Int64 :=
  if -2 ^ 63 ≤ z ∧ z < 2 ^ 63 then some (Int64.ofInt z) else none

/-- `a + b` -/
def checkedAdd (a b : Int64) : Option Int64 := checked (a.toInt + b.toInt)

/-- `a - b` -/
def checkedSub (a b : Int64) : Option Int64 := checked (a.toInt - b.toInt)

theorem checked_of_fits {z : ℤ} (hle : -2 ^ 63 ≤ z) (hlt : z < 2 ^ 63) :
    checked z = some (Int64.ofInt z) := if_pos ⟨hle, hlt⟩

theorem checked_of_not_fits {z : ℤ} (h : ¬ (-2 ^ 63 ≤ z ∧ z < 2 ^ 63)) : checked z = none :=
  if_neg h

theorem checkedAdd_of_fits {a b : Int64} (hle : -2 ^ 63 ≤ a.toInt + b.toInt)
    (hlt : a.toInt + b.toInt < 2 ^ 63) : checkedAdd a b = some (a + b) := by
  rw [checkedAdd, checked_of_fits hle hlt, ← toInt_add_of_bounds hle hlt, Int64.ofInt_toInt]

theorem checkedSub_of_fits {a b : Int64} (hle : -2 ^ 63 ≤ a.toInt - b.toInt)
    (hlt : a.toInt - b.toInt < 2 ^ 63) : checkedSub a b = some (a - b) := by
  rw [checkedSub, checked_of_fits hle hlt, ← toInt_sub_of_bounds hle hlt, Int64.ofInt_toInt]

/-! ### The check, step by step -/

/-- **Check the times** of claims where overflow is checked: nothing is a panic. -/
def enforceTimeWindowChecked (claims : StreamClaims) (now : Int64) :
    Option (Except TokenError Unit) :=
  (checkedSub claims.exp claims.iat).bind fun life =>
    if life > MAX_TTL_SECS then some (.error .badTtl)
    else if claims.nbf > claims.iat ∧ claims.exp < claims.nbf then some (.error .badTtl)
    else (checkedAdd now NBF_SKEW_SECS).bind fun latest =>
      if latest < claims.nbf then some (.error .notYetValid)
      else (checkedSub now EXP_SKEW_SECS).bind fun earliest =>
        if earliest > claims.exp then some (.error .expired) else some (.ok ())

/-- **The clock is inside the window** of the claims, and their life is a policy's, over the
integers. -/
structure Inside (claims : StreamClaims) (now : Int64) : Prop where
  life_le : claims.exp.toInt - claims.iat.toInt ≤ MAX_TTL_SECS.toInt
  nbf_le : claims.nbf.toInt ≤ now.toInt + NBF_SKEW_SECS.toInt
  now_le : now.toInt ≤ claims.exp.toInt + EXP_SKEW_SECS.toInt

/-- The claims that the first two checks let through, in exact arithmetic. -/
def Plausible (claims : StreamClaims) : Prop :=
  claims.exp.toInt - claims.iat.toInt ≤ MAX_TTL_SECS.toInt ∧
    ¬ (claims.iat < claims.nbf ∧ claims.exp < claims.nbf)

/-- **The claims and the clock leave room** for what is computed from them: for the lifetime, and,
as far as the checks before come to it, for the clock moved by either skew. -/
structure Roomy (claims : StreamClaims) (now : Int64) : Prop where
  life_lt : claims.exp.toInt - claims.iat.toInt < 2 ^ 63
  le_life : -2 ^ 63 ≤ claims.exp.toInt - claims.iat.toInt
  late : Plausible claims → now.toInt + NBF_SKEW_SECS.toInt < 2 ^ 63
  early : Plausible claims → claims.nbf.toInt ≤ now.toInt + NBF_SKEW_SECS.toInt →
    -2 ^ 63 ≤ now.toInt - EXP_SKEW_SECS.toInt

theorem skew_toInt : NBF_SKEW_SECS.toInt = 30 ∧ EXP_SKEW_SECS.toInt = 5 ∧
    MAX_TTL_SECS.toInt = 7862400 := by decide

section check

variable {claims : StreamClaims} {now : Int64}

/-- **Where there is room**, the check panics in no build and is the check that wraps around. -/
theorem enforceTimeWindowChecked_of_roomy (h : Roomy claims now) :
    enforceTimeWindowChecked claims now = some (enforceTimeWindow claims now) := by
  obtain ⟨hnbf, hexp, hmax⟩ := skew_toInt
  have hnow := now.le_toInt
  have hnow' := now.toInt_lt
  have hlife := toInt_sub_of_bounds h.le_life h.life_lt
  rw [enforceTimeWindowChecked, checkedSub_of_fits h.le_life h.life_lt, Option.bind_some,
    enforceTimeWindow]
  by_cases hlong : claims.exp - claims.iat > MAX_TTL_SECS
  · rw [if_pos hlong, if_pos hlong]
  rw [if_neg hlong, if_neg hlong]
  by_cases hforged : claims.nbf > claims.iat ∧ claims.exp < claims.nbf
  · rw [if_pos hforged, if_pos hforged]
  rw [if_neg hforged, if_neg hforged]
  -- the claims are plausible, so the clock leaves room for the first skew
  have hplausible : Plausible claims := by
    refine ⟨?_, hforged⟩
    rw [gt_iff_lt, Int64.lt_iff_toInt_lt, hlife] at hlong
    omega
  have hlate := h.late hplausible
  have hadd := toInt_add_of_bounds (a := now) (b := NBF_SKEW_SECS) (by omega) hlate
  rw [checkedAdd_of_fits (by omega) hlate, Option.bind_some]
  by_cases hsoon : now + NBF_SKEW_SECS < claims.nbf
  · rw [if_pos hsoon, if_pos hsoon]
  rw [if_neg hsoon, if_neg hsoon]
  rw [Int64.lt_iff_toInt_lt, hadd] at hsoon
  have hearly := h.early hplausible (by omega)
  rw [checkedSub_of_fits hearly (by omega), Option.bind_some]
  split <;> rfl

/-- **Where there is no room**, a build that checks for overflow panics. -/
theorem enforceTimeWindowChecked_of_not_roomy (h : ¬ Roomy claims now) :
    enforceTimeWindowChecked claims now = none := by
  obtain ⟨hnbf, hexp, hmax⟩ := skew_toInt
  have hnow := now.le_toInt
  have hnow' := now.toInt_lt
  rw [enforceTimeWindowChecked]
  by_cases hfits : -2 ^ 63 ≤ claims.exp.toInt - claims.iat.toInt ∧
      claims.exp.toInt - claims.iat.toInt < 2 ^ 63
  case neg => rw [checkedSub, checked_of_not_fits hfits, Option.bind_none]
  obtain ⟨hle, hlt⟩ := hfits
  rw [checkedSub_of_fits hle hlt, Option.bind_some]
  -- so it is a skew that leaves no room, and the claims are plausible
  have hplausible : Plausible claims := by
    by_contra hnot
    exact h ⟨hlt, hle, fun hp => absurd hp hnot, fun hp => absurd hp hnot⟩
  obtain ⟨hshort, hforged⟩ := hplausible
  have hlong : ¬ claims.exp - claims.iat > MAX_TTL_SECS := by
    rw [gt_iff_lt, Int64.lt_iff_toInt_lt, toInt_sub_of_bounds hle hlt]
    omega
  rw [if_neg hlong, if_neg hforged]
  by_cases hlate : now.toInt + NBF_SKEW_SECS.toInt < 2 ^ 63
  case neg => rw [checkedAdd, checked_of_not_fits fun hfits => hlate hfits.2, Option.bind_none]
  rw [checkedAdd_of_fits (by omega) hlate, Option.bind_some]
  have hadd := toInt_add_of_bounds (a := now) (b := NBF_SKEW_SECS) (by omega) hlate
  have hearly : ¬ (claims.nbf.toInt ≤ now.toInt + NBF_SKEW_SECS.toInt →
      -2 ^ 63 ≤ now.toInt - EXP_SKEW_SECS.toInt) :=
    fun hearly => h ⟨hlt, hle, fun _ => hlate, fun _ => hearly⟩
  rw [Classical.not_imp] at hearly
  have hsoon : ¬ now + NBF_SKEW_SECS < claims.nbf := by
    rw [Int64.lt_iff_toInt_lt, hadd]
    omega
  rw [if_neg hsoon, checkedSub, checked_of_not_fits fun hfits => hearly.2 hfits.1,
    Option.bind_none]

theorem inside_of_accepted (h : Roomy claims now) (hok : enforceTimeWindow claims now = .ok ()) :
    Inside claims now := by
  obtain ⟨hnbf, hexp, hmax⟩ := skew_toInt
  have hnow := now.le_toInt
  have hnow' := now.toInt_lt
  rw [enforceTimeWindow] at hok
  split at hok
  · cases hok
  next hlong =>
  rw [gt_iff_lt, Int64.lt_iff_toInt_lt, toInt_sub_of_bounds h.le_life h.life_lt] at hlong
  split at hok
  · cases hok
  next hforged =>
  have hplausible : Plausible claims := ⟨by omega, hforged⟩
  have hlate := h.late hplausible
  split at hok
  · cases hok
  next hsoon =>
  rw [Int64.lt_iff_toInt_lt, toInt_add_of_bounds (by omega) hlate] at hsoon
  have hearly := h.early hplausible (by omega)
  split at hok
  · cases hok
  next hgone =>
  rw [gt_iff_lt, Int64.lt_iff_toInt_lt, toInt_sub_of_bounds hearly (by omega)] at hgone
  exact ⟨by omega, by omega, by omega⟩

end check

/-- **The check is exact and overflows nowhere if and only if the claims and the clock leave
room.** -/
theorem inside_of_accepted_iff (claims : StreamClaims) (now : Int64) :
    ((enforceTimeWindow claims now = .ok () → Inside claims now) ∧
      enforceTimeWindowChecked claims now ≠ none) ↔ Roomy claims now := by
  constructor
  · rintro ⟨-, hchecked⟩
    by_contra hnot
    exact hchecked (enforceTimeWindowChecked_of_not_roomy hnot)
  · intro h
    refine ⟨inside_of_accepted h, ?_⟩
    rw [enforceTimeWindowChecked_of_roomy h]
    exact Option.some_ne_none _

/-- Claims that were minted just before 1970 and expire when 64 bits end. -/
def endlessClaims : StreamClaims :=
  { sampleClaims with exp := 9223372036854775807, iat := -1, nbf := -1 }

/-- **A token of three hundred billion years is accepted**: whoever holds the key signs it and it is
verified as its claims, and their lifetime wraps around. A build that checks for overflow panics. -/
theorem endlessClaims_accepted :
    (∀ (P : Primitives) (key : List UInt8), verify P key (sign P key endlessClaims) =
        .ok endlessClaims) ∧
      enforceTimeWindow endlessClaims 1748169600 = .ok () ∧
      ¬ Inside endlessClaims 1748169600 ∧
      enforceTimeWindowChecked endlessClaims 1748169600 = none ∧
      ¬ ∀ claims now, (enforceTimeWindow claims now = .ok () → Inside claims now) ∧
        enforceTimeWindowChecked claims now ≠ none := by
  have hpanic : enforceTimeWindowChecked endlessClaims 1748169600 = none := by decide
  refine ⟨fun P key => verify_sign P key rfl, by decide, ?_, hpanic,
    fun h => (h endlessClaims 1748169600).2 hpanic⟩
  rintro ⟨hlife, -, -⟩
  exact absurd hlife (by decide)

end EmeraldExchange.Contracts
