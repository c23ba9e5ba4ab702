import EmeraldExchange.Lib.Ranks
import Mathlib.Algebra.Order.Field.Basic
import Mathlib.Algebra.Order.Field.Rat
import Mathlib.Data.List.GetD
import Mathlib.Data.List.TakeWhile

/-!
# The area under the curve

`auc` of `crates/recommender/src/replay_eval.rs`: how well the scores of some titles tell those that
were liked from those that were not. It is computed by ranks. All scores are sorted, each run of
ties gets the middle of its ranks, and from the sum of the ranks of one class that of its ranks
among itself is taken.

In exact arithmetic that is the share of the pairs of a positive and a negative in which the
positive has the higher score, ties counted half, and with the classes exchanged it is the rest to
one (`auc_eq`).
-/

namespace EmeraldExchange.Recommender.Auc

open Ranks

variable {K : Type*} [Field K] [LinearOrder K]

/-! ### By ranks -/

/-- From position `i` of the order on, each position gets its rank, and those that tie with the
first get the middle of theirs. -/
def rankFrom (key : ℕ → K) (i : ℕ) (order : List ℕ) (ranks : ℕ → K) : ℕ → K :=
  match order with
  | [] => ranks
  | k :: rest =>
    let tied := rest.takeWhile fun m => key m = key k
    let j := i + tied.length
    let avg := ((i + j : ℕ) : K) / (2 : ℕ) + 1
    rankFrom key (j + 1) (rest.dropWhile fun m => key m = key k) fun m =>
      if m ∈ k :: tied then avg else ranks m
  termination_by order.length
  decreasing_by
    exact Nat.lt_succ_of_le (List.length_dropWhile_le ..)

/-- **`auc`**: of the scores of two classes, if both have some, and how many each has. The classes
are given in the order in which they are gone through. -/
def auc (scores : ℤ → Option K) (pos neg : List ℤ) : Option K × ℕ × ℕ :=
  let p := pos.filterMap scores
  let n := neg.filterMap scores
  if p = [] ∨ n = [] then (none, p.length, n.length)
  else
    let all := p ++ n
    let key := fun k => all.getD k 0
    let order := (List.range all.length).mergeSort fun a b => key a ≤ key b
    let ranks := rankFrom key 0 order fun _ => 0
    let np : K := p.length
    let u := ((List.range p.length).map ranks).sum - np * (np + 1) / (2 : ℕ)
    (some (u / (np * n.length)), p.length, n.length)

/-! ### By pairs -/

/-- The scores of a positive and a negative, for each pair that has both. -/
def pairs (scores : ℤ → Option K) (pos neg : List ℤ) : List (K × K) :=
  (pos ×ˢ neg).filterMap fun x => (scores x.1).bind fun a => (scores x.2).map (a, ·)

def above (scores : ℤ → Option K) (pos neg : List ℤ) : ℕ :=
  (pairs scores pos neg).countP fun z => z.2 < z.1

def tied (scores : ℤ → Option K) (pos neg : List ℤ) : ℕ :=
  (pairs scores pos neg).countP fun z => z.1 = z.2

omit [Field K] [LinearOrder K] in
theorem pairs_eq (scores : ℤ → Option K) (pos neg : List ℤ) :
    pairs scores pos neg = pos.filterMap scores ×ˢ neg.filterMap scores := by
  induction pos with
  | nil => rfl
  | cons i pos ih =>
    rw [pairs] at ih
    rw [pairs, List.product_cons, List.filterMap_append, ih, List.filterMap_map]
    rcases hi : scores i with _ | a
    · have hnone : neg.filterMap ((fun x : ℤ × ℤ => (scores x.1).bind fun a =>
          (scores x.2).map (a, ·)) ∘ fun j => (i, j)) = [] :=
        List.filterMap_eq_nil_iff.mpr fun j _ => by simp [hi]
      rw [hnone, List.filterMap_cons_none hi, List.nil_append]
    · have hsome : neg.filterMap ((fun x : ℤ × ℤ => (scores x.1).bind fun a =>
          (scores x.2).map (a, ·)) ∘ fun j => (i, j)) = (neg.filterMap scores).map (a, ·) := by
        rw [List.map_filterMap]
        exact List.filterMap_congr fun j _ => by simp [hi]
      rw [hsome, List.filterMap_cons_some hi, List.product_cons]

/-! ### The ranks that are computed -/

omit [Field K] in
theorem lt_of_mem_dropWhile {key : ℕ → K} {k m : ℕ} : ∀ {rest : List ℕ},
    (k :: rest).Pairwise (fun a b => key a ≤ key b) →
    m ∈ rest.dropWhile (fun a => key a = key k) → key k < key m
  | [], _, hm => absurd hm List.not_mem_nil
  | a :: rest, hsorted, hm => by
    obtain ⟨hk, hrest⟩ := List.pairwise_cons.mp hsorted
    rw [List.dropWhile_cons] at hm
    split at hm
    · exact lt_of_mem_dropWhile (hsorted.sublist (by simp)) hm
    · next hne =>
      have hlt : key k < key a :=
        (hk a List.mem_cons_self).lt_of_ne fun heq => hne (decide_eq_true heq.symm)
      rcases List.mem_cons.mp hm with rfl | hm
      · exact hlt
      · exact hlt.trans_le ((List.pairwise_cons.mp hrest).1 m hm)

variable [IsStrictOrderedRing K]

/-- **The ranks are those of the scores among all**, where the order is that of the scores. -/
theorem rankFrom_eq (key : ℕ → K) (m : ℕ) : ∀ (i : ℕ) (order : List ℕ) (ranks : ℕ → K),
    order.Pairwise (fun a b => key a ≤ key b) →
    rankFrom key i order ranks m =
      if m ∈ order then i + rank K (key m) (order.map key) else ranks m
  | i, [], ranks, _ => by simp [rankFrom]
  | i, k :: rest, ranks, hsorted => by
    rw [rankFrom]
    set same := rest.takeWhile fun a => key a = key k
    set more := rest.dropWhile fun a => key a = key k
    have hsplit : rest = same ++ more := List.takeWhile_append_dropWhile.symm
    have hsame : ∀ a ∈ k :: same, key a = key k := by
      intro a ha
      rcases List.mem_cons.mp ha with rfl | ha
      · rfl
      · simpa using List.mem_takeWhile_imp ha
    have habove : ∀ a ∈ more, key k < key a := fun a ha => lt_of_mem_dropWhile hsorted ha
    have hparts : (k :: rest).map key = (k :: same).map key ++ more.map key := by
      conv_lhs => rw [hsplit]
      simp
    rw [rankFrom_eq key m (i + same.length + 1) more _
      (hsorted.sublist ((List.dropWhile_sublist _).trans (List.sublist_cons_self ..)))]
    have hmem : m ∈ k :: rest ↔ m ∈ k :: same ∨ m ∈ more := by
      conv_lhs => rw [hsplit]
      simp [or_assoc]
    rw [hparts]
    have hties {p : K → Prop} (h : p (key k)) : ∀ y ∈ (k :: same).map key, p y := by
      intro y hy
      obtain ⟨a, ha, rfl⟩ := List.mem_map.mp hy
      exact (hsame a ha).symm ▸ h
    by_cases hm : m ∈ more
    · -- it is above all that tie with the first
      rw [if_pos hm, if_pos (hmem.mpr (.inr hm)), rank_of_gt (hties (habove m hm)),
        List.length_map, List.length_cons]
      push_cast
      ring
    · rw [if_neg hm]
      by_cases htie : m ∈ k :: same
      · -- it ties with the first, and the rest is above
        have hrest : ∀ z ∈ more.map key, key m < z := by
          intro z hz
          obtain ⟨a, ha, rfl⟩ := List.mem_map.mp hz
          exact (hsame m htie).trans_lt (habove a ha)
        rw [if_pos htie, if_pos (hmem.mpr (.inl htie)),
          rank_of_ties (hties (hsame m htie).symm) hrest, List.length_map, List.length_cons]
        push_cast
        ring
      · rw [if_neg htie, if_neg fun h => (hmem.mp h).elim htie hm]
  termination_by _ order => order.length
  decreasing_by
    exact Nat.lt_succ_of_le (List.length_dropWhile_le ..)

/-! ### The area is the share of the pairs -/

section Area

variable {scores : ℤ → Option K} {pos neg : List ℤ}

theorem sum_ranks (p n : List K) :
    let key := fun k => (p ++ n).getD k 0
    let order := (List.range (p ++ n).length).mergeSort fun a b => key a ≤ key b
    ((List.range p.length).map (rankFrom key 0 order fun _ => 0)).sum =
      (p.map (rank K · (p ++ n))).sum := by
  intro key order
  have hsorted : order.Pairwise fun a b => key a ≤ key b := by
    have h : order.Pairwise fun a b => decide (key a ≤ key b) = true :=
      List.pairwise_mergeSort (fun a b c hab hbc => decide_eq_true
        ((of_decide_eq_true hab).trans (of_decide_eq_true hbc)))
        (fun a b => by simpa using le_total (key a) (key b)) _
    exact h.imp of_decide_eq_true
  have hall : (order.map key).Perm (p ++ n) := by
    have hrange : (List.range (p ++ n).length).map key = p ++ n := by
      refine List.ext_getElem (by simp) fun k hk hk' => ?_
      rw [List.getElem_map, List.getElem_range]
      exact List.getD_eq_getElem _ _ hk'
    conv_rhs => rw [← hrange]
    exact (List.mergeSort_perm _ _).map key
  have hp : (List.range p.length).map key = p := by
    refine List.ext_getElem (by simp) fun k hk hk' => ?_
    rw [List.getElem_map, List.getElem_range]
    exact (List.getD_append _ _ _ _ hk').trans (List.getD_eq_getElem _ _ hk')
  conv_rhs => rw [← hp, List.map_map]
  congr 1
  refine List.map_congr_left fun m hm => ?_
  have hmem : m ∈ order := by
    rw [List.mem_mergeSort, List.mem_range, List.length_append]
    exact Nat.lt_add_right _ (List.mem_range.mp hm)
  rw [rankFrom_eq key m 0 order _ hsorted, if_pos hmem, Nat.cast_zero, zero_add, rank,
    points_perm hall]
  conv_lhs => rw [← hp]
  rfl

theorem auc_fst (hpos : pos.filterMap scores ≠ []) (hneg : neg.filterMap scores ≠ []) :
    (auc scores pos neg).1 =
      some (((pos.filterMap scores).map (points K · (neg.filterMap scores))).sum /
        ((pos.filterMap scores).length * (neg.filterMap scores).length)) := by
  have hsum := sum_ranks (pos.filterMap scores) (neg.filterMap scores)
  rw [auc, if_neg (not_or.mpr ⟨hpos, hneg⟩)]
  dsimp only at hsum ⊢
  rw [hsum, sum_rank, Nat.cast_ofNat, add_sub_cancel_right]

/-- **The area is the share of the pairs in which the positive is above**, with half of those that
tie; and with the classes exchanged it is the rest to one. -/
theorem auc_eq (scores : ℤ → Option K) (pos neg : List ℤ) (hpos : ∃ i ∈ pos, (scores i).isSome)
    (hneg : ∃ i ∈ neg, (scores i).isSome) :
    ∃ a, auc scores pos neg =
        (some a, (pos.filterMap scores).length, (neg.filterMap scores).length) ∧
      a = (above scores pos neg + (tied scores pos neg : K) / 2) /
        (pairs scores pos neg).length ∧
      (auc scores neg pos).1 = some (1 - a) := by
  have hscored : ∀ {ids : List ℤ}, (∃ i ∈ ids, (scores i).isSome) → ids.filterMap scores ≠ [] := by
    rintro ids ⟨i, hi, hsome⟩
    obtain ⟨x, hx⟩ := Option.isSome_iff_exists.mp hsome
    exact List.ne_nil_of_mem (List.mem_filterMap.mpr ⟨i, hi, hx⟩)
  have hp := hscored hpos
  have hn := hscored hneg
  refine ⟨_, Prod.ext (auc_fst hp hn) ?_, ?_, ?_⟩
  · rw [auc, if_neg (not_or.mpr ⟨hp, hn⟩)]
  · rw [above, tied, pairs_eq, sum_points_eq_countP, List.length_product, Nat.cast_mul]
  · have hne : ((pos.filterMap scores).length * (neg.filterMap scores).length : K) ≠ 0 :=
      mul_ne_zero (Nat.cast_ne_zero.mpr (mt List.eq_nil_of_length_eq_zero hp))
        (Nat.cast_ne_zero.mpr (mt List.eq_nil_of_length_eq_zero hn))
    have hsum := eq_sub_of_add_eq' (sum_points_add (K := K) (pos.filterMap scores)
      (neg.filterMap scores))
    rw [auc_fst hn hp, hsum, mul_comm ((neg.filterMap scores).length : K), sub_div, div_self hne]

/-- Five titles with scores, of which two tie. -/
def fiveTitles (i : ℤ) : Option ℚ :=
  [(1, 9 / 10), (2, 1 / 2), (3, 1 / 2), (4, 1 / 10), (5, 7 / 10)].lookup i

theorem auc_fiveTitles : (auc fiveTitles [1, 2] [3, 4, 99]).1 = some (7 / 8) ∧
    (auc fiveTitles [3, 4, 99] [1, 2]).1 = some (1 / 8) := by
  obtain ⟨a, harea, ha, hrest⟩ := auc_eq fiveTitles [1, 2] [3, 4, 99] ⟨1, by simp, rfl⟩
    ⟨3, by simp, rfl⟩
  have hvalue : a = 7 / 8 := by
    rw [ha]
    decide +kernel
  rw [harea, hrest, hvalue]
  decide +kernel

end Area

end EmeraldExchange.Recommender.Auc
