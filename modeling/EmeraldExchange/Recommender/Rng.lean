import EmeraldExchange.Lib.BinaryOrder
import EmeraldExchange.Lib.Drawing
import EmeraldExchange.Lib.Probing
import Mathlib.Data.Fintype.Card
import Mathlib.Data.Nat.Bitwise
import Mathlib.Order.Interval.Finset.Nat

/-!
# Seeded sampling

`crates/recommender/src/rng.rs`: bounded integers from a stream of 32-bit words, and a choice of
some of so many without repetition.

A word is scaled to the bound, and rejected if it is one of the few that would favour some values.
The words that are accepted are as many for each value
(`card_takenFor`). A stream of which all words are rejected from
some point on keeps the loop waiting (`bounded_zeros`), any other
does not.

The choice shuffles the end of all indices, or draws them one after the other into a table with open
addressing, in which there is always a free slot; neither depends on where its numbers come from
(`all_choice`).
-/

namespace EmeraldExchange.Recommender.Rng

abbrev Word := Fin (2 ^ 32)

/-- Why there is no value: the words that are given do not suffice, an assertion fails, or a loop
never ends. -/
inductive Halt
  | words
  | panics
  | spins
  deriving DecidableEq

/-! ### Bounded integers -/

/-- The rejection loop, with the product that was drawn last. -/
def redraw (excl threshold m : ℕ) (ws : List Word) : Except Halt (ℕ × List Word) :=
  if m % 2 ^ 32 < threshold then
    match ws with
    | [] => .error .words
    | w :: ws => redraw excl threshold ((w : ℕ) * excl) ws
  else .ok (m / 2 ^ 32, ws)

/-- **`bounded`** -/
def bounded (rng : ℕ) (ws : List Word) : Except Halt (ℕ × List Word) :=
  if rng = 0 then .ok (0, ws)
  else if ¬ rng < 2 ^ 32 - 1 then .error .panics
  else
    let excl := (rng + 1) % 2 ^ 32
    match ws with
    | [] => .error .words
    | w :: ws =>
      let m := (w : ℕ) * excl
      if m % 2 ^ 32 < excl then
        let threshold := (2 ^ 32 - 1 - rng) % excl
        redraw excl threshold m ws
      else .ok (m / 2 ^ 32, ws)

/-! ### Choices -/

open Drawing

def swap (data : List ℕ) (i j : ℕ) : Drawing Halt (List ℕ) :=
  match data[i]?, data[j]? with
  | some a, some b => .pure ((data.set i b).set j a)
  | _, _ => .fail .panics

/-- The entries before a position, from the last down to the first that is shuffled. -/
def shuffleDown (first : ℕ) : ℕ → List ℕ → Drawing Halt (List ℕ)
  | 0, data => .pure data
  | i + 1, data =>
    if i < first then .pure data
    else .draw i fun j => (swap data i j).bind (shuffleDown first i)

/-- **`shuffle_from`** -/
def shuffleFrom (data : List ℕ) (first : ℕ) : Drawing Halt (List ℕ) :=
  shuffleDown first data.length data

/-- The smallest mask of ones that covers a number. -/
def genMask (max : ℕ) : ℕ := [1, 2, 4, 8, 16, 32].foldl (fun m s => m ||| m >>> s) max

/-- `(1.2 * size as f64) as u64`, where this is below `2 ^ 63`. -/
def grown (size : ℕ) : ℕ := ((Binary64.ofRat 1.2).mul (.ofRat size)).toI64.toNat

/-- Go on from a slot until one fits; none if no slot does, and the loop never ends. -/
def probe (mask : ℕ) (fits : ℕ → Bool) : ℕ → ℕ → Option ℕ
  | 0, _ => none
  | n + 1, loc => if fits loc then some loc else probe mask fits n ((loc + 1) &&& mask)

/-- One round of Floyd's algorithm: the table, and the value that is picked. -/
def floydStep (mask : ℕ) (set : ℕ → Option ℕ) (j val : ℕ) : Option ((ℕ → Option ℕ) × ℕ) :=
  (probe mask (fun loc => set loc = none || set loc = some val) (mask + 1) (val &&& mask)).bind
    fun loc =>
      if set loc = none then some (Function.update set loc (some val), val)
      else
        (probe mask (fun loc => set loc = none) (mask + 1) (j &&& mask)).map fun loc =>
          (Function.update set loc (some j), j)

/-- Floyd's algorithm, for the values that remain. -/
def floyd (mask : ℕ) : List ℕ → (ℕ → Option ℕ) → List ℕ → Drawing Halt (List ℕ)
  | [], _, out => .pure out
  | j :: js, set, out => .draw j fun val =>
    match floydStep mask set j val with
    | none => .fail .spins
    | some (set, pick) => floyd mask js set (out ++ [pick])

/-- **`choice`**, without repetition. -/
def choice (pop size : ℕ) : Drawing Halt (List ℕ) :=
  if ¬ size ≤ pop then .fail .panics
  else if 10000 < pop ∧ pop / 50 < size then
    (shuffleFrom (List.range pop) (max (pop - size) 1)).bind fun idx =>
      .pure (idx.drop (pop - size))
  else
    let mask := genMask (grown size)
    (floyd mask (List.range' (pop - size) size) (fun _ => none) []).bind fun out =>
      shuffleFrom out 1

/-! ### Scaling -/

section Scaling

variable {a e q v w : ℕ}

theorem mem_interval_iff (he : 0 < e) :
    (a ≤ w * e ∧ w * e < a + e * q) ↔ w ∈ Finset.Ico ((a + e - 1) / e) ((a + e - 1) / e + q) := by
  have hlow : ∀ b, b ≤ w * e ↔ (b + e - 1) / e ≤ w := by
    intro b
    rw [Nat.div_le_iff_le_mul_add_pred he, Nat.mul_comm]
    omega
  have hshift : (a + e * q + e - 1) / e = (a + e - 1) / e + q := by
    rw [show a + e * q + e - 1 = (a + e - 1) + e * q by omega, Nat.add_mul_div_left _ _ he]
  rw [Finset.mem_Ico, ← hlow, ← hshift, ← Nat.not_le, ← Nat.not_le, hlow (a + e * q)]

/-- **Of so many words, the same number are scaled to each value**, once those are left out that are
among the first for a value. -/
theorem card_scaled (n : ℕ) (he : 0 < e) (hv : v < e) :
    ((Finset.range n).filter fun w => n % e ≤ w * e % n ∧ w * e / n = v).card = n / e := by
  have hend : v * n + n % e + e * (n / e) = (v + 1) * n := by
    rw [Nat.add_assoc, Nat.mod_add_div, Nat.succ_mul]
  have heq : (Finset.range n).filter (fun w => n % e ≤ w * e % n ∧ w * e / n = v) =
      Finset.Ico ((v * n + n % e + e - 1) / e) ((v * n + n % e + e - 1) / e + n / e) := by
    ext w
    rw [← mem_interval_iff he, hend, Finset.mem_filter, Finset.mem_range]
    constructor
    · rintro ⟨hw, hlow, rfl⟩
      have hdiv := Nat.div_add_mod' (w * e) n
      have hless := Nat.mod_lt (w * e) (Nat.zero_lt_of_lt hw)
      rw [Nat.succ_mul]
      omega
    · rintro ⟨hlow, hhigh⟩
      have hn : 0 < n := Nat.pos_of_ne_zero fun h => by simp [h] at hhigh
      have hvalue : w * e / n = v := Nat.div_eq_of_lt_le (by omega) hhigh
      have hdiv := Nat.div_add_mod' (w * e) n
      rw [hvalue] at hdiv
      have hword : w * e < n * e :=
        hhigh.trans_le ((Nat.mul_le_mul_right n hv).trans_eq (Nat.mul_comm e n))
      exact ⟨Nat.lt_of_mul_lt_mul_right hword, by omega, hvalue⟩
  rw [heq, Nat.card_Ico, Nat.add_sub_cancel_left]

end Scaling

/-! ### What is accepted -/

section Bounded

variable {rng v : ℕ} {w : Word} {ws : List Word}

/-- A word is accepted unless it is among the first of those that give a value. -/
def Accepted (rng : ℕ) (w : Word) : Prop := 2 ^ 32 % (rng + 1) ≤ (w : ℕ) * (rng + 1) % 2 ^ 32

theorem bounded_zero (ws : List Word) : bounded 0 ws = .ok (0, ws) := rfl

theorem bounded_nil (h0 : rng ≠ 0) (h : rng < 2 ^ 32 - 1) : bounded rng [] = .error .words := by
  rw [bounded, if_neg h0, if_neg (not_not.mpr h)]

/-- **The threshold is the remainder of all words**, although it is computed with 32 bits; that it
is only computed where it may matter changes nothing. -/
theorem bounded_eq_redraw (h0 : rng ≠ 0) (h : rng < 2 ^ 32 - 1) (w : Word) (ws : List Word) :
    bounded rng (w :: ws) =
      redraw (rng + 1) (2 ^ 32 % (rng + 1)) ((w : ℕ) * (rng + 1)) ws := by
  have hexcl : (rng + 1) % 2 ^ 32 = rng + 1 := Nat.mod_eq_of_lt (by omega)
  have hthreshold : (2 ^ 32 - 1 - rng) % (rng + 1) = 2 ^ 32 % (rng + 1) := by
    rw [Nat.mod_eq_sub_mod (show rng + 1 ≤ 2 ^ 32 by omega), Nat.sub_sub, Nat.add_comm 1]
  rw [bounded, if_neg h0, if_neg (not_not.mpr h)]
  dsimp only
  rw [hexcl, hthreshold]
  split
  · rfl
  · next hlow =>
    have hless : 2 ^ 32 % (rng + 1) < rng + 1 := Nat.mod_lt _ rng.succ_pos
    unfold redraw
    rw [if_neg (by omega)]

/-- **A word is taken or skipped.** -/
theorem bounded_cons_of_accepted (h0 : rng ≠ 0) (h : rng < 2 ^ 32 - 1) (hw : Accepted rng w) :
    bounded rng (w :: ws) = .ok ((w : ℕ) * (rng + 1) / 2 ^ 32, ws) := by
  rw [bounded_eq_redraw h0 h]
  unfold redraw
  rw [if_neg (Nat.not_lt.mpr hw)]

theorem bounded_cons_of_not_accepted (h0 : rng ≠ 0) (h : rng < 2 ^ 32 - 1)
    (hw : ¬ Accepted rng w) : bounded rng (w :: ws) = bounded rng ws := by
  rw [bounded_eq_redraw h0 h]
  unfold redraw
  rw [if_pos (Nat.lt_of_not_le hw)]
  rcases ws with _ | ⟨w', ws⟩
  · rw [bounded_nil h0 h]
  · rw [bounded_eq_redraw h0 h]

theorem scaled_le (w : Word) : (w : ℕ) * (rng + 1) / 2 ^ 32 ≤ rng := by
  have hlt : (w : ℕ) * (rng + 1) < 2 ^ 32 * (rng + 1) :=
    Nat.mul_lt_mul_of_pos_right w.isLt rng.succ_pos
  exact Nat.lt_succ_iff.mp (Nat.div_lt_of_lt_mul hlt)

/-- **What `bounded` gives is within the bound**; it fails for lack of words only. -/
theorem bounded_cases (h : rng < 2 ^ 32 - 1) : ∀ ws : List Word,
    (∃ e, bounded rng ws = .error e ∧ e = .words) ∨
      ∃ v ws', bounded rng ws = .ok (v, ws') ∧ v ≤ rng := by
  intro ws
  by_cases h0 : rng = 0
  · subst h0
    exact .inr ⟨0, ws, bounded_zero ws, Nat.le_refl 0⟩
  induction ws with
  | nil => exact .inl ⟨_, bounded_nil h0 h, rfl⟩
  | cons w ws ih =>
    by_cases hw : Accepted rng w
    · exact .inr ⟨_, ws, bounded_cons_of_accepted h0 h hw, scaled_le w⟩
    · rw [bounded_cons_of_not_accepted h0 h hw]
      exact ih

/-- The words that `bounded` takes for a value. -/
def takenFor (rng v : ℕ) : Finset Word :=
  Finset.univ.filter fun w => bounded rng [w] = .ok (v, [])

theorem mem_takenFor (h0 : rng ≠ 0) (h : rng < 2 ^ 32 - 1) :
    w ∈ takenFor rng v ↔ Accepted rng w ∧ (w : ℕ) * (rng + 1) / 2 ^ 32 = v := by
  rw [takenFor, Finset.mem_filter, and_iff_right (Finset.mem_univ w)]
  by_cases hw : Accepted rng w
  · rw [bounded_cons_of_accepted h0 h hw]
    simp [hw]
  · rw [bounded_cons_of_not_accepted h0 h hw, bounded_nil h0 h]
    simp [hw]

/-- **The words that are taken are as many for each value.** -/
theorem card_takenFor (h0 : rng ≠ 0) (h : rng < 2 ^ 32 - 1) (hv : v ≤ rng) :
    (takenFor rng v).card = 2 ^ 32 / (rng + 1) := by
  rw [← card_scaled (2 ^ 32) rng.succ_pos (Nat.lt_succ_of_le hv)]
  refine Finset.card_bij (fun w _ => (w : ℕ)) ?_ ?_ ?_
  · intro w hw
    exact Finset.mem_filter.mpr ⟨Finset.mem_range.mpr w.isLt, (mem_takenFor h0 h).mp hw⟩
  · intro w _ w' _ heq
    exact Fin.ext heq
  · intro n hn
    obtain ⟨hrange, hscaled⟩ := Finset.mem_filter.mp hn
    exact ⟨⟨n, Finset.mem_range.mp hrange⟩, (mem_takenFor h0 h).mpr hscaled, rfl⟩

/-- Words that are accepted keep coming, for each bound. -/
def Fair (stream : ℕ → Word) : Prop :=
  ∀ rng, rng ≠ 0 → rng < 2 ^ 32 - 1 → ∀ pos, ∃ k ≥ pos, Accepted rng (stream k)

/-- **`bounded` gives a value where accepted words keep coming.** -/
theorem flows_bounded {stream : ℕ → Word} (hfair : Fair stream) (h : rng < 2 ^ 32 - 1) :
    Flows bounded stream rng := by
  intro pos
  by_cases h0 : rng = 0
  · subst h0
    refine ⟨0, 0, Nat.le_refl 0, fun n => ?_⟩
    rw [bounded_zero, Nat.zero_add, Nat.add_zero]
  obtain ⟨k, hk, hw⟩ := hfair rng h0 h pos
  obtain ⟨d, rfl⟩ := Nat.exists_eq_add_of_le hk
  clear hk
  induction d generalizing pos with
  | zero =>
    rw [Nat.add_zero] at hw
    refine ⟨_, 1, scaled_le (stream pos), fun n => ?_⟩
    rw [Nat.add_comm, wordsFrom_succ, bounded_cons_of_accepted h0 h hw]
  | succ d ih =>
    by_cases hfirst : Accepted rng (stream pos)
    · refine ⟨_, 1, scaled_le (stream pos), fun n => ?_⟩
      rw [Nat.add_comm, wordsFrom_succ, bounded_cons_of_accepted h0 h hfirst]
    · rw [← Nat.add_assoc, Nat.add_right_comm] at hw
      obtain ⟨v, m, hv, hrun⟩ := ih (pos + 1) hw
      refine ⟨v, m + 1, hv, fun n => ?_⟩
      rw [Nat.add_right_comm, wordsFrom_succ, bounded_cons_of_not_accepted h0 h hfirst, hrun,
        Nat.add_right_comm, Nat.add_assoc pos m 1]

end Bounded

/-! ### Shuffles -/

section Shuffle

variable {data : List ℕ} {first i j : ℕ}

theorem swap_eq (hi : i < data.length) (hj : j < data.length) :
    ∃ data', swap data i j = .pure data' ∧ data'.Perm data := by
  refine ⟨(data.set i data[j]).set j data[i], ?_, List.set_set_perm hi hj⟩
  rw [swap, List.getElem?_eq_getElem hi, List.getElem?_eq_getElem hj]

theorem all_shuffleDown : ∀ {i : ℕ} {data : List ℕ}, i ≤ data.length → data.length < 2 ^ 32 →
    (shuffleDown first i data).All (· < 2 ^ 32 - 1) (List.Perm · data)
  | 0, _, _, _ => .refl _
  | i + 1, data, hi, hlen => by
    rw [shuffleDown]
    split
    · exact .refl _
    · refine ⟨by omega, fun j hj => ?_⟩
      obtain ⟨data', hswap, hperm⟩ := swap_eq (Nat.lt_of_succ_le hi)
        (Nat.lt_of_le_of_lt hj (Nat.lt_of_succ_le hi))
      dsimp only
      rw [hswap]
      have hlen' := hperm.length_eq
      exact (all_shuffleDown (by omega) (by omega)).mono fun out hout => hout.trans hperm

/-- **A shuffle gives the same entries**, in some order. -/
theorem all_shuffleFrom (hlen : data.length < 2 ^ 32) :
    (shuffleFrom data first).All (· < 2 ^ 32 - 1) (List.Perm · data) :=
  all_shuffleDown (Nat.le_refl _) hlen

end Shuffle

/-! ### The table -/

section Mask

def smear (k m : ℕ) : ℕ := (List.range k).foldl (fun m i => m ||| m >>> 2 ^ i) m

/-- **A bit of the mask is set if one of those above it is.** -/
theorem testBit_smear (m i : ℕ) : ∀ k,
    (smear k m).testBit i = true ↔ ∃ j < 2 ^ k, m.testBit (i + j) = true
  | 0 => by simp [smear]
  | k + 1 => by
    have hstep : smear (k + 1) m = smear k m ||| smear k m >>> 2 ^ k := by
      rw [smear, List.range_succ, List.foldl_append]
      rfl
    have hpow : 2 ^ (k + 1) = 2 ^ k + 2 ^ k := by rw [Nat.pow_succ, Nat.mul_two]
    rw [hstep, Nat.testBit_or, Bool.or_eq_true, Nat.testBit_shiftRight, testBit_smear m i k,
      testBit_smear m (2 ^ k + i) k]
    constructor
    · rintro (⟨j, hj, hbit⟩ | ⟨j, hj, hbit⟩)
      · exact ⟨j, by omega, hbit⟩
      · exact ⟨2 ^ k + j, by omega, by rwa [← Nat.add_assoc, Nat.add_comm i]⟩
    · rintro ⟨j, hj, hbit⟩
      rcases Nat.lt_or_ge j (2 ^ k) with hlt | hge
      · exact .inl ⟨j, hlt, hbit⟩
      · refine .inr ⟨j - 2 ^ k, by omega, ?_⟩
        rwa [Nat.add_comm _ i, Nat.add_assoc, Nat.add_sub_cancel' hge]

/-- **The mask is all ones, and covers the number.** -/
theorem exists_genMask {m : ℕ} (h : m < 2 ^ 64) : ∃ k, genMask m = 2 ^ k - 1 ∧ m < 2 ^ k := by
  have hsmear : genMask m = smear 6 m := rfl
  rcases Nat.eq_zero_or_pos m with rfl | hpos
  · exact ⟨0, by decide, by decide⟩
  · refine ⟨m.log2 + 1, ?_, Nat.lt_log2_self⟩
    rw [hsmear]
    refine Nat.eq_of_testBit_eq fun i => ?_
    rw [Nat.testBit_two_pow_sub_one, Bool.eq_iff_iff, testBit_smear, decide_eq_true_iff]
    constructor
    · rintro ⟨j, -, hbit⟩
      have hlow := Nat.ge_two_pow_of_testBit hbit
      have hlog := (Nat.le_log2 hpos.ne').mpr hlow
      omega
    · intro hi
      have hlog : m.log2 < 64 := (Nat.log2_lt hpos.ne').mpr h
      refine ⟨m.log2 - i, by omega, ?_⟩
      rw [Nat.add_sub_cancel' (Nat.lt_succ_iff.mp hi)]
      exact Nat.testBit_log2 hpos.ne'

end Mask

theorem factor_eq : Binary64.ofRat 1.2 = .finite (5404319552844595 / 2 ^ 52) := by decide +kernel

/-- **The table is larger than the number of indices**, although its size is computed with a double:
rounding does not take the factor below one. -/
theorem le_grown {size : ℕ} (h : size < 2 ^ 32) : size ≤ grown size ∧ grown size < 2 ^ 64 := by
  have hsize : Binary64.ofRat (size : ℚ) = .finite (size : ℚ) := by
    have hint := Binary64.ofRat_intCast (z := size) (by omega)
    rwa [Int.cast_natCast] at hint
  have hnonneg : (0 : ℚ) ≤ size := Nat.cast_nonneg size
  have hlarge : (size : ℚ) ≤ 2 ^ 32 := by exact_mod_cast h.le
  have hgrow : (size : ℚ) ≤ 5404319552844595 / 2 ^ 52 * size :=
    le_mul_of_one_le_left hnonneg (by norm_num)
  have habs : |5404319552844595 / 2 ^ 52 * (size : ℚ)| ≤ 2 ^ 100 := by
    rw [abs_of_nonneg (hnonneg.trans hgrow)]
    have hprod : 5404319552844595 / 2 ^ 52 * (size : ℚ) ≤ 2 * 2 ^ 32 :=
      mul_le_mul (by norm_num) hlarge hnonneg (by norm_num)
    exact hprod.trans (by norm_num)
  obtain ⟨r, hr, -⟩ := Binary64.exists_ofRat_near habs
  have hle : (size : ℚ) ≤ r := by
    have hlt := Binary64.lt_ofRat_of_le hnonneg hgrow
    rw [hr, hsize] at hlt
    exact not_lt.mp (of_decide_eq_false hlt)
  have htrunc : (size : ℤ) ≤ r.num.tdiv r.den := by
    have hrnonneg : 0 ≤ r := hnonneg.trans hle
    rw [Int.tdiv_eq_ediv_of_nonneg (Rat.num_nonneg.mpr hrnonneg), ← Rat.floor_def]
    exact Int.le_floor.mpr (by exact_mod_cast hle)
  rw [grown, factor_eq, hsize, Binary64.mul, hr, Binary64.toI64]
  constructor
  · omega
  · omega

/-! ### Floyd's algorithm -/

section Floyd

open Probing

variable {mask k : ℕ} {set : ℕ → Option ℕ} {out : List ℕ}

theorem and_mask (hmask : mask = 2 ^ k - 1) (x : ℕ) : x &&& mask = x % (mask + 1) := by
  have hpow : 2 ^ k - 1 + 1 = 2 ^ k := Nat.sub_add_cancel Nat.one_le_two_pow
  rw [hmask, Nat.and_two_pow_sub_one_eq_mod, hpow]

theorem probe_eq_search (hmask : mask = 2 ^ k - 1) (fits : ℕ → Bool) : ∀ n loc,
    probe mask fits n loc = search (mask + 1) fits n loc
  | 0, _ => rfl
  | n + 1, loc => by
    rw [probe, search, and_mask hmask, probe_eq_search hmask fits n]

/-- **A round of Floyd's algorithm ends, and picks a value that was not picked.** -/
theorem exists_floydStep (hmask : mask = 2 ^ k - 1) (hset : Holds (mask + 1) (· &&& mask) set out)
    (hroom : out.length < mask + 1) {j val : ℕ} (hout : ∀ v ∈ out, v < j) (hval : val ≤ j) :
    ∃ set' pick, floydStep mask set j val = some (set', pick) ∧
      Holds (mask + 1) (· &&& mask) set' (out ++ [pick]) ∧ pick ∉ out ∧ pick ≤ j := by
  have hhome : ∀ x, x &&& mask < mask + 1 := fun x => by
    rw [and_mask hmask]
    exact Nat.mod_lt _ mask.succ_pos
  obtain ⟨i, -, hsearch, hfits, hbefore⟩ := hset.exists_search hroom
    (fun loc => set loc = none || set loc = some val) (fun l hl => by simp [hl]) (hhome val)
  unfold floydStep
  rw [probe_eq_search hmask, hsearch, Option.bind_some]
  by_cases hfree : set (further (mask + 1) (val &&& mask) i) = none
  · -- the value was not picked before
    rw [if_pos hfree]
    have hreach : Reaches (mask + 1) (· &&& mask) set val i := fun l hl hnone => by
      have h := hbefore l hl
      simp [hnone] at h
    refine ⟨_, val, rfl, hset.insert hfree hreach, hset.not_mem hfree fun l hl hsome => ?_, hval⟩
    have h := hbefore l hl
    simp [hsome] at h
  · -- the last value of the range cannot have been picked
    rw [if_neg hfree]
    obtain ⟨i', -, hsearch', hfits', hbefore'⟩ := hset.exists_search hroom
      (fun loc => set loc = none) (fun l hl => by simp [hl]) (hhome j)
    rw [probe_eq_search hmask, hsearch', Option.map_some]
    refine ⟨_, j, rfl, hset.insert (of_decide_eq_true hfits') fun l hl => ?_,
      fun hmem => Nat.lt_irrefl j (hout j hmem), Nat.le_refl j⟩
    exact of_decide_eq_false (hbefore' l hl)

/-- **Floyd's algorithm picks distinct values**, one for each round. -/
theorem all_floyd (hmask : mask = 2 ^ k - 1) : ∀ {n a : ℕ} {set : ℕ → Option ℕ} {out : List ℕ},
    Holds (mask + 1) (· &&& mask) set out → out.Nodup → (∀ v ∈ out, v < a) →
    out.length + n ≤ mask + 1 → a + n < 2 ^ 32 →
    (floyd mask (List.range' a n) set out).All (· < 2 ^ 32 - 1) fun out' =>
      out'.length = out.length + n ∧ out'.Nodup ∧ ∀ v ∈ out', v < a + n
  | 0, _, _, _, _, hnodup, hout, _, _ => ⟨rfl, hnodup, hout⟩
  | n + 1, a, set, out, hset, hnodup, hout, hroom, hsmall => by
    rw [List.range'_succ, floyd]
    refine ⟨by omega, fun val hval => ?_⟩
    obtain ⟨set', pick, hstep, hset', hnew, hpick⟩ :=
      exists_floydStep hmask hset (by omega) hout hval
    dsimp only
    rw [hstep]
    have hnodup' : (out ++ [pick]).Nodup :=
      List.nodup_append'.mpr ⟨hnodup, List.nodup_singleton pick, by simpa using hnew⟩
    have hout' : ∀ v ∈ out ++ [pick], v < a + 1 := by
      intro v hv
      rcases List.mem_append.mp hv with hv | hv
      · exact (hout v hv).trans (Nat.lt_succ_self a)
      · rw [List.mem_singleton.mp hv]
        exact Nat.lt_succ_of_le hpick
    have hlen : (out ++ [pick]).length = out.length + 1 := by simp
    refine (all_floyd hmask hset' hnodup' hout' (by omega) (by omega)).mono ?_
    rintro out' ⟨hlength, hdistinct, hbelow⟩
    exact ⟨by omega, hdistinct, fun v hv => by have := hbelow v hv; omega⟩

end Floyd

/-! ### A choice -/

section Choice

variable {pop size : ℕ}

/-- What a choice is to be: so many distinct indices. -/
def IsChoice (pop size : ℕ) (out : List ℕ) : Prop :=
  out.length = size ∧ out.Nodup ∧ ∀ i ∈ out, i < pop

/-- **A choice is one, whatever is drawn**: no loop goes on forever, and nothing panics. -/
theorem all_choice (hsize : size ≤ pop) (hpop : pop < 2 ^ 32) :
    (choice pop size).All (· < 2 ^ 32 - 1) (IsChoice pop size) := by
  rw [choice, if_neg (not_not.mpr hsize)]
  split
  · -- the end of all indices in some order
    refine (all_shuffleFrom (by rwa [List.length_range])).bind fun idx hperm => ?_
    refine ⟨?_, ?_, fun i hi => ?_⟩
    · rw [List.length_drop, hperm.length_eq, List.length_range, Nat.sub_sub_self hsize]
    · exact (hperm.nodup_iff.mpr List.nodup_range).sublist (List.drop_sublist ..)
    · exact List.mem_range.mp (hperm.mem_iff.mp (List.mem_of_mem_drop hi))
  · obtain ⟨hgrown, hgrown'⟩ := le_grown (Nat.lt_of_le_of_lt hsize hpop)
    obtain ⟨k, hmask, hcover⟩ := exists_genMask hgrown'
    dsimp only
    refine (all_floyd hmask Probing.holds_nil List.nodup_nil (by simp) ?_ ?_).bind ?_
    · rw [List.length_nil, hmask]
      omega
    · omega
    · rintro out ⟨hlength, hnodup, hbelow⟩
      rw [List.length_nil, Nat.zero_add] at hlength
      refine (all_shuffleFrom (by omega)).mono fun out' hperm => ⟨?_, ?_, fun i hi => ?_⟩
      · rw [hperm.length_eq, hlength]
      · exact hperm.nodup_iff.mpr hnodup
      · have hlt := hbelow i (hperm.mem_iff.mp hi)
        omega

/-- **Seeded sampling.** What `bounded` gives is within the bound and as many words give each value;
a choice never spins, and is a choice; and both come to an end where accepted words keep coming. -/
theorem sampling (stream : ℕ → Word) (hfair : Fair stream) :
    (∀ rng < 2 ^ 32 - 1,
      (∀ pos, ∃ v m, v ≤ rng ∧ bounded rng (wordsFrom stream pos m) = .ok (v, [])) ∧
        ∀ v ≤ rng, ∀ v' ≤ rng, (takenFor rng v).card = (takenFor rng v').card) ∧
      ∀ pop size, size ≤ pop → pop < 2 ^ 32 → ∀ pos,
        (∃ out m, (choice pop size).run bounded (wordsFrom stream pos m) = .ok (out, []) ∧
          IsChoice pop size out) ∧
        ∀ ws, (choice pop size).run bounded ws ≠ .error .spins ∧
          (choice pop size).run bounded ws ≠ .error .panics := by
  refine ⟨fun rng hrng => ⟨fun pos => ?_, fun v hv v' hv' => ?_⟩,
    fun pop size hsize hpop pos => ⟨?_, fun ws => ?_⟩⟩
  · obtain ⟨v, m, hv, hrun⟩ := flows_bounded hfair hrng pos
    exact ⟨v, m, hv, hrun 0⟩
  · by_cases h0 : rng = 0
    · have hzero : v = 0 := by omega
      have hzero' : v' = 0 := by omega
      rw [hzero, hzero']
    · rw [card_takenFor h0 hrng hv, card_takenFor h0 hrng hv']
  · obtain ⟨out, m, hout, hrun⟩ := (all_choice hsize hpop).exists_run
      (fun bound hbound => flows_bounded hfair hbound) pos
    exact ⟨out, m, hrun 0, hout⟩
  · rcases (all_choice hsize hpop).run (fun bound hbound => bounded_cases hbound) ws with
      ⟨e, he, rfl⟩ | ⟨out, ws', hrun, -⟩
    · rw [he]
      exact ⟨by simp, by simp⟩
    · rw [hrun]
      exact ⟨by simp, by simp⟩

end Choice

def ones : Word := ⟨2 ^ 32 - 1, by norm_num⟩

theorem fair_ones : Fair fun _ => ones := by
  intro rng _ h pos
  refine ⟨pos, le_rfl, ?_⟩
  have hproduct : (2 ^ 32 - 1) * (rng + 1) = (2 ^ 32 - 1 - rng) + 2 ^ 32 * rng := by omega
  have hlow : (2 ^ 32 - 1) * (rng + 1) % 2 ^ 32 = 2 ^ 32 - 1 - rng := by
    rw [hproduct, Nat.add_mul_mod_self_left, Nat.mod_eq_of_lt (by omega)]
  show 2 ^ 32 % (rng + 1) ≤ (2 ^ 32 - 1) * (rng + 1) % 2 ^ 32
  rw [hlow]
  have hdiv := Nat.mod_add_div (2 ^ 32) (rng + 1)
  have hone : rng + 1 ≤ (rng + 1) * (2 ^ 32 / (rng + 1)) :=
    Nat.le_mul_of_pos_right _ (Nat.div_pos (by omega) rng.succ_pos)
  omega

/-- A choice of two of five indices by that word. -/
theorem sampling_ones : ∃ out m, (choice 5 2).run bounded (wordsFrom (fun _ => ones) 0 m) =
    .ok (out, []) ∧ IsChoice 5 2 out :=
  ((sampling (fun _ => ones) fair_ones).2 5 2 (by decide) (by decide) 0).1

/-- **A stream of zeros keeps `bounded` waiting.** -/
theorem bounded_zeros : ¬ ∃ n v ws, bounded 2 (wordsFrom (fun _ => 0) 0 n) = .ok (v, ws) := by
  have hall : ∀ n pos, bounded 2 (wordsFrom (fun _ => 0) pos n) = .error .words := by
    intro n
    induction n with
    | zero => exact fun _ => rfl
    | succ n ih =>
      intro pos
      have hzero : ¬ Accepted 2 0 := by
        rw [Accepted]
        decide
      rw [wordsFrom_succ, bounded_cons_of_not_accepted (by decide) (by decide) hzero]
      exact ih (pos + 1)
  rintro ⟨n, v, ws, hrun⟩
  rw [hall] at hrun
  cases hrun

end EmeraldExchange.Recommender.Rng
