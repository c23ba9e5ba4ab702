import EmeraldExchange.Lib.TopK
import Mathlib.Algebra.BigOperators.Group.Finset.Basic
import Mathlib.Algebra.BigOperators.Ring.Finset
import Mathlib.Algebra.Order.BigOperators.Group.Finset
import Mathlib.Algebra.Order.BigOperators.Group.List
import Mathlib.Algebra.Order.Field.Basic
import Mathlib.Algebra.Order.Field.Rat
import Mathlib.Data.Finset.Sort
import Mathlib.Order.WithBot
import Mathlib.Tactic.FieldSimp
import Mathlib.Tactic.Linarith
import Mathlib.Tactic.Ring

/-!
# The features of a title

`features` of `crates/recommender/src/recipes/ranker.rs`, in exact arithmetic. A title is compared
with two sets of titles, those that a household owns or likes and those that it rejects: how near it
is to them, how much of its cast it shares with them, and how often its genres are among them.

The model is trained on the members of the two sets, and there a title must not be compared with
itself. Its own entries are overwritten: a similarity by -1, an overlap by 0; and the counts of its
genres are reduced by one, as is the number of the set. For the overlaps and the counts that comes
to the same (`overlapMax_erase`, `logodds_erase_pos`). For the similarities it does so in a large
set. In a small one the -1 is among the ten greatest, and goes into their mean
(`leave_self_out_iff`).
-/

namespace EmeraldExchange.Recommender.Features

open TopK

variable {K : Type*} [Field K] [LinearOrder K] {n d : ℕ}

/-! ### The catalog -/

/-- **A sparse matrix** with `n` rows of pairs of a column and a value. -/
structure Sparse (K : Type*) (n : ℕ) where
  rows : Fin n → List (ℕ × K)

/-- `col_sums`: the sum of a column over some rows. -/
def Sparse.colSum (m : Sparse K n) (rows : List (Fin n)) (c : ℕ) : K :=
  ((rows.flatMap m.rows).map fun e => if e.1 = c then e.2 else 0).sum

/-- Every value is one, and no column comes twice in a row: the codes of a row are distinct. -/
def Sparse.OneHot (m : Sparse K n) : Prop :=
  ∀ r, ((m.rows r).map Prod.fst).Nodup ∧ ∀ e ∈ m.rows r, e.2 = 1

def Sparse.Nonneg (m : Sparse K n) : Prop := ∀ r, ∀ e ∈ m.rows r, 0 ≤ e.2

instance decidableOneHot (m : Sparse K n) : Decidable m.OneHot :=
  inferInstanceAs (Decidable (∀ r, ((m.rows r).map Prod.fst).Nodup ∧ ∀ e ∈ m.rows r, e.2 = 1))

instance decidableNonneg (m : Sparse K n) : Decidable m.Nonneg :=
  inferInstanceAs (Decidable (∀ r, ∀ e ∈ m.rows r, 0 ≤ e.2))

/-- **A catalog** of `n` titles. An embedding is divided by its norm, or by the least that a norm
may be, and so is none longer than one. The matrices of genres, languages and decades are one-hot;
those of cast, crew and keywords have the weights of what is rare. -/
structure Catalog (K : Type*) [Field K] [LinearOrder K] (n d : ℕ) where
  emb : Fin n → Fin d → K
  genre : Sparse K n
  lang : Sparse K n
  decade : Sparse K n
  cast : Sparse K n
  crew : Sparse K n
  kw : Sparse K n
  rating : Fin n → K
  logVotes : Fin n → K
  logVoteRate : Fin n → K
  logPop : Fin n → K
  age : Fin n → K
  norm_emb : ∀ r, ∑ i, emb r i * emb r i ≤ 1
  genre_oneHot : genre.OneHot
  lang_oneHot : lang.OneHot
  decade_oneHot : decade.OneHot
  cast_nonneg : cast.Nonneg
  crew_nonneg : crew.Nonneg
  kw_nonneg : kw.Nonneg

/-! ### Log-odds -/

/-- Which of its sets a title is a member of, and taken out of. -/
inductive Variant
  | plain
  | minusPos
  | minusNeg
  deriving DecidableEq

/-- `LOGODDS_PRIOR` -/
def logoddsPrior : K := 1 / 10

/-- `LOGODDS_EVIDENCE` -/
def logoddsEvidence : K := 20

/-- The rate of a category in a class of size `n`, from its count and its share of the catalog. -/
def rate (count size share : K) : K :=
  if 0 < size then (count + logoddsPrior * size * share) / ((1 + logoddsPrior) * size) else share

/-- The log-odds of the categories from their counts in the two classes. The rates of a category
that is in the catalog are positive, so that their quotient has a logarithm. -/
def lo (ln : K → K) (share cp : ℕ → K) (nP : K) (cn : ℕ → K) (nN : K) (c : ℕ) : K :=
  let raw := ln (rate (cp c) nP (share c) / rate (cn c) nN (share c))
  let evidence := cp c + cn c
  (if 0 < evidence then raw else 0) * evidence / (evidence + logoddsEvidence)

def minus (count : ℕ → K) (c : ℕ) : K := max (count c - 1) 0

/-- **`logodds`**, with the variants for a member of either class. -/
def logodds (ln : K → K) (m : Sparse K n) (pos neg : List (Fin n)) : Variant → ℕ → K :=
  let share := fun c => m.colSum (List.finRange n) c / (max n 1 : ℕ)
  let cp := m.colSum pos
  let cn := m.colSum neg
  fun
  | .plain => lo ln share cp pos.length cn neg.length
  | .minusPos => lo ln share (minus cp) (max (pos.length - 1 : K) 0) cn neg.length
  | .minusNeg => lo ln share cp pos.length (minus cn) (max (neg.length - 1 : K) 0)

/-- **`mean_logodds`** of a title. -/
def meanLogodds (m : Sparse K n) (r : Fin n) (lo : Variant → ℕ → K) (variant : Variant) : K :=
  ((m.rows r).map fun e => e.2 * lo variant e.1).sum / max ((m.rows r).map Prod.snd).sum 1

/-! ### What a title is compared with -/

/-- **The two sets**, in the order of the catalog, and their log-odds. -/
structure Refs (K : Type*) (n : ℕ) where
  pos : List (Fin n)
  neg : List (Fin n)
  loGenre : Variant → ℕ → K
  loLang : Variant → ℕ → K
  loDecade : Variant → ℕ → K

def refsOf (ln : K → K) (cat : Catalog K n d) (pos neg : List (Fin n)) : Refs K n where
  pos := pos
  neg := neg
  loGenre := logodds ln cat.genre pos neg
  loLang := logodds ln cat.lang pos neg
  loDecade := logodds ln cat.decade pos neg

/-- **`refs`**, of the titles of the two sets that the catalog has. -/
def refs (ln : K → K) (cat : Catalog K n d) (p q : Finset (Fin n)) : Refs K n :=
  refsOf ln cat p.sort (q \ p).sort

/-! ### Similarities and overlaps -/

/-- `dot` -/
def dot (a b : Fin d → K) : K := ∑ i, a i * b i

/-- `TOPK` -/
def topKCount : ℕ := 10

/-- **`sim_stats`**: the greatest, and the mean of the greatest ten, with one's own overwritten. -/
def simStats (sim : List K) (own : Option ℕ) (fill : K) : K × K :=
  if sim = [] then (0, 0)
  else
    let s := match own with
      | some c => sim.set c fill
      | none => sim
    let k := min topKCount s.length
    let top := topK k s
    (top.headD 0, top.sum / k)

/-- `inverted`: for each column, the references that have it and their values. -/
def inverted (m : Sparse K n) (refs : List (Fin n)) (c : ℕ) : List (ℕ × K) :=
  refs.zipIdx.flatMap fun x => ((m.rows x.1).filter fun e => e.1 = c).map fun e => (x.2, e.2)

/-- `overlap`: the product of a row with that of each reference. -/
def overlap (m : Sparse K n) (r : Fin n) (inv : ℕ → List (ℕ × K)) (count : ℕ) : List K :=
  (List.range count).map fun j =>
    ((m.rows r).map fun e =>
      (((inv e.1).filter fun w => w.1 = j).map fun w => e.2 * w.2).sum).sum

/-! ### The features -/

/-- `FEATURES` -/
structure FeatureRow (K : Type*) where
  simPosMax : K
  simPosTopk : K
  negExcessMax : K
  negExcessTopk : K
  castPos : K
  castNeg : K
  crewPos : K
  crewNeg : K
  kwPos : K
  kwNeg : K
  genreLo : K
  langLo : K
  decadeLo : K
  rating : K
  logVotes : K
  logVoteRate : K
  logPop : K
  age : K
  deriving DecidableEq

section Feature

variable (cat : Catalog K n d) (refs : Refs K n) (r : Fin n)

/-- `pos_col` and `neg_col`: the place of a title among the references. -/
def ownColumn (refs : List (Fin n)) : Option ℕ := refs.idxOf? r

def sims (refs : List (Fin n)) : List K := refs.map fun p => dot (cat.emb r) (cat.emb p)

/-- The greatest overlap with a reference other than oneself. -/
def overlapMax (m : Sparse K n) (refs : List (Fin n)) : K :=
  (simStats (overlap m r (inverted m refs) refs.length) (ownColumn r refs) 0).1

def variant : Variant :=
  if (ownColumn r refs.pos).isSome then .minusPos
  else if (ownColumn r refs.neg).isSome then .minusNeg
  else .plain

/-- **The features of a title.** -/
def feature : FeatureRow K :=
  let pos := simStats (sims cat r refs.pos) (ownColumn r refs.pos) (-1)
  let neg := simStats (sims cat r refs.neg) (ownColumn r refs.neg) (-1)
  { simPosMax := pos.1
    simPosTopk := pos.2
    negExcessMax := if 0 < refs.neg.length then max (neg.1 - pos.1) 0 else 0
    negExcessTopk := if 0 < refs.neg.length then max (neg.2 - pos.2) 0 else 0
    castPos := overlapMax r cat.cast refs.pos
    castNeg := overlapMax r cat.cast refs.neg
    crewPos := overlapMax r cat.crew refs.pos
    crewNeg := overlapMax r cat.crew refs.neg
    kwPos := overlapMax r cat.kw refs.pos
    kwNeg := overlapMax r cat.kw refs.neg
    genreLo := meanLogodds cat.genre r refs.loGenre (variant refs r)
    langLo := meanLogodds cat.lang r refs.loLang (variant refs r)
    decadeLo := meanLogodds cat.decade r refs.loDecade (variant refs r)
    rating := cat.rating r
    logVotes := cat.logVotes r
    logVoteRate := cat.logVoteRate r
    logPop := cat.logPop r
    age := cat.age r }

/-- The affinity of a title to each positive one, negative infinity for itself. -/
def affinity : List (WithBot K) :=
  let overlaps := [cat.cast, cat.crew, cat.kw].map fun m =>
    overlap m r (inverted m refs.pos) refs.pos.length
  let aff := overlaps.foldl (fun aff ov => aff.zipWith (fun a o => a + 1 / (2 : ℕ) * o) ov)
    (sims cat r refs.pos)
  let aff := aff.map WithBot.some
  match ownColumn r refs.pos with
  | some c => aff.set c ⊥
  | none => aff

/-- **`features`** -/
def features (rows : List (Fin n)) : List (FeatureRow K × List (WithBot K)) :=
  rows.map fun r => (feature cat refs r, affinity cat refs r)

end Feature

/-! ### Taking a title out of a list -/

section Own

variable {r : Fin n}

theorem ownColumn_of_notMem {l : List (Fin n)} (h : r ∉ l) : ownColumn r l = none :=
  List.idxOf?_eq_none_iff.mpr h

/-- **Its own entry overwritten is the list without it, and what is written.** -/
theorem perm_set_own {β : Type*} (f : Fin n → β) (fill : β) : ∀ {l : List (Fin n)}, r ∈ l →
    ∃ c, ownColumn r l = some c ∧ ((l.map f).set c fill).Perm (fill :: (l.erase r).map f)
  | b :: l, h => by
    rw [ownColumn, List.idxOf?_cons]
    by_cases hb : b = r
    · subst hb
      rw [beq_self_eq_true, if_pos rfl, List.erase_cons_head]
      exact ⟨0, rfl, .refl _⟩
    · have hmem : r ∈ l := (List.mem_cons.mp h).resolve_left fun he => hb he.symm
      obtain ⟨c, hc, hperm⟩ := perm_set_own f fill hmem
      have hbeq : ¬(b == r) = true := by rwa [beq_iff_eq]
      rw [if_neg hbeq, List.erase_cons_tail hbeq]
      refine ⟨c + 1, congrArg (Option.map (· + 1)) hc, ?_⟩
      exact (hperm.cons (f b)).trans (.swap ..)

theorem sort_erase (p : Finset (Fin n)) (r : Fin n) : (p.erase r).sort = p.sort.erase r := by
  have hperm : (p.erase r).sort.Perm (p.sort.erase r) := by
    refine (List.perm_ext_iff_of_nodup (Finset.sort_nodup ..)
      ((Finset.sort_nodup ..).erase r)).mpr fun a => ?_
    rw [Finset.mem_sort, Finset.mem_erase, (Finset.sort_nodup ..).mem_erase_iff, Finset.mem_sort]
  exact hperm.eq_of_pairwise' (Finset.pairwise_sort ..)
    ((Finset.pairwise_sort ..).sublist List.erase_sublist)

end Own

/-! ### The greatest similarities -/

/-- The greatest of some numbers, zero if there are none. -/
def greatest (s : List K) : K := (sortDesc s).headD 0

/-- **The mean of the ten greatest numbers**, of all if there are fewer, zero if there are none. -/
def topMean (s : List K) : K :=
  ((sortDesc s).take topKCount).sum / (min topKCount s.length : ℕ)

theorem simStats_eq {s : List K} (h : s ≠ []) :
    ((topK (min topKCount s.length) s).headD 0,
      (topK (min topKCount s.length) s).sum / (min topKCount s.length : ℕ)) =
      (greatest s, topMean s) := by
  have hlen : 0 < s.length := List.length_pos_iff.mpr h
  have hk : 0 < min topKCount s.length := lt_min (by decide) hlen
  have hsorted : (sortDesc s).length = s.length := (perm_sortDesc s).length_eq
  have htake : (sortDesc s).take (min topKCount s.length) = (sortDesc s).take topKCount := by
    rw [← hsorted]
    exact List.take_eq_take_min.symm
  rw [topK_eq hk, greatest, topMean, htake]
  obtain ⟨x, l, hxl⟩ := List.exists_cons_of_ne_nil (List.ne_nil_of_length_pos (hsorted ▸ hlen))
  rw [hxl]
  rfl

theorem simStats_none (sim : List K) (fill : K) :
    simStats sim none fill = (greatest sim, topMean sim) := by
  rw [simStats]
  split_ifs with h
  · rw [h]
    simp [greatest, topMean, sortDesc]
  · exact simStats_eq h

theorem simStats_own {f : Fin n → K} {fill : K} {l : List (Fin n)} {r : Fin n} (h : r ∈ l) :
    simStats (l.map f) (ownColumn r l) fill =
      (greatest (fill :: (l.erase r).map f), topMean (fill :: (l.erase r).map f)) := by
  obtain ⟨c, hc, hperm⟩ := perm_set_own f fill h
  have hne : l.map f ≠ [] := List.ne_nil_of_mem (List.mem_map_of_mem h)
  have hset : (l.map f).set c fill ≠ [] := mt (List.set_eq_nil_iff ..).mp hne
  simp only [simStats, if_neg hne, hc]
  refine (simStats_eq hset).trans ?_
  rw [greatest, topMean, greatest, topMean, sortDesc_congr hperm, hperm.length_eq]

theorem sum_sortDesc [IsStrictOrderedRing K] (s : List K) : (sortDesc s).sum = s.sum :=
  (perm_sortDesc s).sum_eq

theorem topMean_of_le [IsStrictOrderedRing K] {s : List K} (h : s.length ≤ topKCount) :
    topMean s = s.sum / s.length := by
  rw [topMean, min_eq_right h, List.take_of_length_le, sum_sortDesc]
  rwa [(perm_sortDesc s).length_eq]

section Fill

variable {fill : K} {others : List K} (hfill : ∀ x ∈ others, fill ≤ x)

include hfill

/-- **What is below the others is not the greatest.** -/
theorem greatest_cons (h : others ≠ []) : greatest (fill :: others) = greatest others := by
  have hsorted : sortDesc others ≠ [] := by
    refine List.ne_nil_of_length_pos ?_
    rw [(perm_sortDesc others).length_eq]
    exact List.length_pos_iff.mpr h
  obtain ⟨x, l, hxl⟩ := List.exists_cons_of_ne_nil hsorted
  rw [greatest, greatest, sortDesc_cons_of_le hfill, hxl]
  rfl

/-- **What is below ten others is not among the ten greatest.** -/
theorem topMean_cons (h : topKCount ≤ others.length) :
    topMean (fill :: others) = topMean others := by
  have hlen : topKCount ≤ (sortDesc others).length := by rwa [(perm_sortDesc others).length_eq]
  rw [topMean, topMean, sortDesc_cons_of_le hfill, List.take_append_of_le_length hlen,
    min_eq_left h, List.length_cons, min_eq_left (h.trans (Nat.le_succ _))]

end Fill

/-! ### Overlaps -/

section Overlap

variable {m : Sparse K n}

def pairOverlap (m : Sparse K n) (r p : Fin n) : K :=
  ((m.rows r).map fun e =>
    (((m.rows p).filter fun w => w.1 = e.1).map fun w => e.2 * w.2).sum).sum

/-- The entries of the reference at a place, where the places begin at `k`. -/
theorem filter_flatMap_zipIdx {β : Type*} (f : Fin n → List β) : ∀ (l : List (Fin n)) (k j : ℕ),
    ((l.zipIdx k).flatMap fun x => (f x.1).map fun e => (x.2, e)).filter (fun w => w.1 = j) =
      if k ≤ j then ((l[j - k]?).map f).getD [] |>.map fun e => (j, e) else []
  | [], k, j => by simp
  | a :: l, k, j => by
    rw [List.zipIdx_cons, List.flatMap_cons, List.filter_append,
      filter_flatMap_zipIdx f l (k + 1) j]
    rcases Nat.lt_trichotomy j k with hlt | rfl | hgt
    · have hnone : ((f a).map fun e => (k, e)).filter (fun w => w.1 = j) = [] := by
        simp [List.filter_eq_nil_iff, hlt.ne']
      rw [hnone, if_neg (by omega), if_neg (by omega)]
      rfl
    · have hall : ((f a).map fun e => (j, e)).filter (fun w => w.1 = j) =
          (f a).map fun e => (j, e) := by
        simp [List.filter_eq_self]
      rw [hall, if_neg (by omega), if_pos le_rfl, Nat.sub_self, List.append_nil]
      rfl
    · have hnone : ((f a).map fun e => (k, e)).filter (fun w => w.1 = j) = [] := by
        simp [List.filter_eq_nil_iff, hgt.ne]
      obtain ⟨i, rfl⟩ := Nat.exists_eq_add_of_lt hgt
      rw [hnone, if_pos (by omega), if_pos (by omega), List.nil_append,
        show k + i + 1 - k = i + 1 by omega, show k + i + 1 - (k + 1) = i by omega,
        List.getElem?_cons_succ]

omit [Field K] [LinearOrder K] in
theorem filter_inverted (m : Sparse K n) {l : List (Fin n)} {j : ℕ} (hj : j < l.length) (c : ℕ) :
    (inverted m l c).filter (fun w => w.1 = j) =
      (((m.rows l[j]).filter fun e => e.1 = c).map Prod.snd).map fun v => (j, v) := by
  have h := filter_flatMap_zipIdx (fun p => ((m.rows p).filter fun e => e.1 = c).map Prod.snd) l 0 j
  rw [if_pos j.zero_le, Nat.sub_zero, List.getElem?_eq_getElem hj] at h
  simp only [List.map_map] at h
  exact h

omit [LinearOrder K] in
/-- **The overlaps are those with one reference after the other.** -/
theorem overlap_eq (m : Sparse K n) (r : Fin n) (l : List (Fin n)) :
    overlap m r (inverted m l) l.length = l.map (pairOverlap m r) := by
  refine List.ext_getElem (by simp [overlap]) fun j hj hj' => ?_
  rw [List.length_map] at hj'
  simp only [overlap, List.getElem_map, List.getElem_range, pairOverlap]
  refine congrArg List.sum (List.map_congr_left fun e _ => ?_)
  rw [filter_inverted m hj', List.map_map, List.map_map]
  rfl

variable [IsStrictOrderedRing K]

theorem pairOverlap_nonneg (h : m.Nonneg) (r p : Fin n) : 0 ≤ pairOverlap m r p := by
  refine List.sum_nonneg fun x hx => ?_
  obtain ⟨e, he, rfl⟩ := List.mem_map.mp hx
  refine List.sum_nonneg fun y hy => ?_
  obtain ⟨w, hw, rfl⟩ := List.mem_map.mp hy
  exact mul_nonneg (h r e he) (h p w (List.mem_of_mem_filter hw))

/-- **An overlap of zero with oneself is as good as none.** -/
theorem overlapMax_erase (h : m.Nonneg) {l : List (Fin n)} (hl : l.Nodup) (r : Fin n) :
    overlapMax r m l = overlapMax r m (l.erase r) := by
  have hout : ownColumn r (l.erase r) = none :=
    ownColumn_of_notMem fun hr => (hl.mem_erase_iff.mp hr).1 rfl
  by_cases hr : r ∈ l
  · rw [overlapMax, overlapMax, overlap_eq, overlap_eq, simStats_own hr, hout, simStats_none]
    rcases he : l.erase r with _ | ⟨p, t⟩
    · rfl
    · refine greatest_cons (fun x hx => ?_) (List.cons_ne_nil _ _)
      obtain ⟨p, _, rfl⟩ := List.mem_map.mp hx
      exact pairOverlap_nonneg h r p
  · rw [List.erase_of_not_mem hr]

end Overlap

/-! ### Log-odds without oneself -/

section Logodds

variable {m : Sparse K n} {r : Fin n}

omit [LinearOrder K] in
theorem colSum_perm {l l' : List (Fin n)} (h : l.Perm l') (c : ℕ) :
    m.colSum l c = m.colSum l' c :=
  ((h.flatMap_right m.rows).map _).sum_eq

omit [LinearOrder K] in
theorem colSum_cons (m : Sparse K n) (r : Fin n) (l : List (Fin n)) (c : ℕ) :
    m.colSum (r :: l) c = m.colSum [r] c + m.colSum l c := by
  simp only [Sparse.colSum, List.flatMap_cons, List.flatMap_nil, List.append_nil, List.map_append,
    List.sum_append]

omit [LinearOrder K] in
theorem colSum_singleton (h : m.OneHot) {e : ℕ × K} (he : e ∈ m.rows r) :
    m.colSum [r] e.1 = 1 := by
  have hsum : ∀ l : List (ℕ × K), (l.map Prod.fst).Nodup → (∀ w ∈ l, w.2 = 1) → e ∈ l →
      (l.map fun w => if w.1 = e.1 then w.2 else 0).sum = 1 := by
    intro l
    induction l with
    | nil => exact fun _ _ h => absurd h List.not_mem_nil
    | cons w l ih =>
      intro hnodup hone hmem
      obtain ⟨hw, hl⟩ := List.nodup_cons.mp hnodup
      obtain ⟨hone, hones⟩ := List.forall_mem_cons.mp hone
      rw [List.map_cons, List.sum_cons]
      rcases List.mem_cons.mp hmem with rfl | hmem
      · -- no other is of the category
        have hzero : (l.map fun w => if w.1 = e.1 then w.2 else 0).sum = 0 := by
          refine List.sum_eq_zero fun x hx => ?_
          obtain ⟨u, hu, rfl⟩ := List.mem_map.mp hx
          exact if_neg fun heq => hw (List.mem_map.mpr ⟨u, hu, heq⟩)
        rw [if_pos rfl, hone, hzero, add_zero]
      · have hne : w.1 ≠ e.1 := fun heq => hw (List.mem_map.mpr ⟨e, hmem, heq.symm⟩)
        rw [if_neg hne, zero_add, ih hl hones hmem]
  have hrow := hsum (m.rows r) (h r).1 (h r).2 he
  simpa only [Sparse.colSum, List.flatMap_cons, List.flatMap_nil, List.append_nil] using hrow

variable [IsStrictOrderedRing K]

theorem colSum_nonneg (h : m.OneHot) (l : List (Fin n)) (c : ℕ) : 0 ≤ m.colSum l c := by
  refine List.sum_nonneg fun x hx => ?_
  obtain ⟨e, he, rfl⟩ := List.mem_map.mp hx
  obtain ⟨r, _, he⟩ := List.mem_flatMap.mp he
  split_ifs
  · rw [(h r).2 e he]
    exact zero_le_one
  · exact le_rfl

/-- **One less in each of its categories is the count without it.** -/
theorem minus_colSum (h : m.OneHot) {l : List (Fin n)} (hr : r ∈ l) {e : ℕ × K}
    (he : e ∈ m.rows r) : minus (m.colSum l) e.1 = m.colSum (l.erase r) e.1 := by
  rw [minus, colSum_perm (List.perm_cons_erase hr), colSum_cons, colSum_singleton h he,
    add_sub_cancel_left, max_eq_left (colSum_nonneg h _ _)]

theorem length_erase_cast {l : List (Fin n)} (hr : r ∈ l) :
    max (l.length - 1 : K) 0 = (l.erase r).length := by
  have hlen : (l.length : K) = (l.erase r).length + 1 := by
    have hpos := List.length_pos_of_mem hr
    rw [← Nat.cast_add_one, List.length_erase_of_mem hr, Nat.sub_add_cancel hpos]
  rw [hlen, add_sub_cancel_right, max_eq_left (Nat.cast_nonneg _)]

/-- **The log-odds without a title**, in the categories of the title. -/
theorem logodds_erase_pos (ln : K → K) (h : m.OneHot) {pos : List (Fin n)} (hr : r ∈ pos)
    (neg : List (Fin n)) {e : ℕ × K} (he : e ∈ m.rows r) :
    logodds ln m pos neg .minusPos e.1 = logodds ln m (pos.erase r) neg .plain e.1 := by
  simp only [logodds, lo]
  rw [minus_colSum h hr he, length_erase_cast hr]

theorem logodds_erase_neg (ln : K → K) (h : m.OneHot) (pos : List (Fin n)) {neg : List (Fin n)}
    (hr : r ∈ neg) {e : ℕ × K} (he : e ∈ m.rows r) :
    logodds ln m pos neg .minusNeg e.1 = logodds ln m pos (neg.erase r) .plain e.1 := by
  simp only [logodds, lo]
  rw [minus_colSum h hr he, length_erase_cast hr]

omit [IsStrictOrderedRing K] in
theorem meanLogodds_congr {lo lo' : Variant → ℕ → K} {v v' : Variant}
    (h : ∀ e ∈ m.rows r, lo v e.1 = lo' v' e.1) :
    meanLogodds m r lo v = meanLogodds m r lo' v' := by
  have hmap : ((m.rows r).map fun e => e.2 * lo v e.1) =
      (m.rows r).map fun e => e.2 * lo' v' e.1 :=
    List.map_congr_left fun e he => by rw [h e he]
  rw [meanLogodds, meanLogodds, hmap]

end Logodds

/-! ### Similarities -/

variable [IsStrictOrderedRing K]

/-- **No two embeddings are further apart than opposite ones.** -/
theorem neg_one_le_dot (cat : Catalog K n d) (r p : Fin n) :
    -1 ≤ dot (cat.emb r) (cat.emb p) := by
  have hsq : 0 ≤ ∑ i, (cat.emb r i + cat.emb p i) * (cat.emb r i + cat.emb p i) :=
    Finset.sum_nonneg fun i _ => mul_self_nonneg _
  have hexpand : ∑ i, (cat.emb r i + cat.emb p i) * (cat.emb r i + cat.emb p i) =
      ∑ i, cat.emb r i * cat.emb r i + 2 * dot (cat.emb r) (cat.emb p) +
        ∑ i, cat.emb p i * cat.emb p i := by
    rw [dot, Finset.mul_sum, ← Finset.sum_add_distrib, ← Finset.sum_add_distrib]
    exact Finset.sum_congr rfl fun i _ => by ring
  have hr := cat.norm_emb r
  have hp := cat.norm_emb p
  linarith

theorem neg_one_le_sims (cat : Catalog K n d) (r : Fin n) {l : List (Fin n)} :
    ∀ x ∈ sims cat r l, -1 ≤ x := by
  intro x hx
  obtain ⟨p, _, rfl⟩ := List.mem_map.mp hx
  exact neg_one_le_dot cat r p

theorem neg_length_le_sum : ∀ {s : List K}, (∀ x ∈ s, -1 ≤ x) →
    -(s.length : K) ≤ s.sum ∧ (s.sum = -(s.length : K) ↔ ∀ x ∈ s, x = -1)
  | [], _ => by simp
  | x :: s, h => by
    obtain ⟨hx, hs⟩ := List.forall_mem_cons.mp h
    obtain ⟨hle, hiff⟩ := neg_length_le_sum hs
    rw [List.sum_cons, List.length_cons, Nat.cast_add_one, List.forall_mem_cons, ← hiff]
    refine ⟨by linarith, fun heq => ⟨by linarith, by linarith⟩, fun ⟨h1, h2⟩ => ?_⟩
    rw [h1, h2]
    ring

/-- **A -1 beside a few numbers lowers their mean**, unless they are all -1. -/
theorem topMean_fill {s : List K} (h : ∀ x ∈ s, -1 ≤ x) (hpos : 0 < s.length)
    (hlt : s.length < topKCount) :
    topMean (-1 :: s) ≤ topMean s ∧ (topMean (-1 :: s) = topMean s ↔ ∀ x ∈ s, x = -1) := by
  obtain ⟨hle, hiff⟩ := neg_length_le_sum h
  have hs : (0 : K) < s.length := Nat.cast_pos.mpr hpos
  have hs1 : (0 : K) < s.length + 1 := by linarith
  have hdiff : topMean s - topMean (-1 :: s) =
      (s.sum + s.length) / (s.length * (s.length + 1)) := by
    rw [topMean_of_le hlt.le, topMean_of_le (s := -1 :: s) hlt, List.sum_cons, List.length_cons,
      Nat.cast_add_one]
    field_simp
    ring
  have hprod := mul_pos hs hs1
  constructor
  · have hnonneg : 0 ≤ (s.sum + s.length) / (s.length * (s.length + 1)) :=
      div_nonneg (by linarith) hprod.le
    linarith
  · rw [← hiff, ← sub_eq_zero, ← neg_sub, neg_eq_zero, hdiff, div_eq_zero_iff,
      or_iff_left hprod.ne', add_eq_zero_iff_eq_neg]

theorem topMean_of_forall_neg_one {s : List K} (hpos : 0 < s.length) (hle : s.length ≤ topKCount)
    (h : ∀ x ∈ s, x = -1) : topMean s = -1 := by
  have hsum : s.sum = -(s.length : K) := (neg_length_le_sum fun x hx => (h x hx).ge).2.mpr h
  have hs : (s.length : K) ≠ 0 := Nat.cast_ne_zero.mpr hpos.ne'
  rw [topMean_of_le hle, hsum, neg_div, div_self hs]

theorem neg_one_le_topMean {s : List K} (h : ∀ x ∈ s, -1 ≤ x) : -1 ≤ topMean s := by
  have htake : ∀ x ∈ (sortDesc s).take topKCount, -1 ≤ x := fun x hx =>
    h x ((perm_sortDesc s).mem_iff.mp (List.mem_of_mem_take hx))
  have hlen : ((sortDesc s).take topKCount).length = min topKCount s.length := by
    rw [List.length_take, (perm_sortDesc s).length_eq]
  have hle := (neg_length_le_sum htake).1
  rw [hlen] at hle
  rw [topMean]
  rcases Nat.eq_zero_or_pos (min topKCount s.length) with hzero | hpos
  · rw [hzero, Nat.cast_zero, div_zero]
    exact neg_one_lt_zero.le
  · rwa [le_div_iff₀ (Nat.cast_pos.mpr hpos), neg_one_mul]

theorem neg_one_le_greatest {s : List K} (h : ∀ x ∈ s, -1 ≤ x) : -1 ≤ greatest s := by
  rw [greatest]
  rcases hs : sortDesc s with _ | ⟨x, l⟩
  · exact neg_one_lt_zero.le
  · exact h x ((perm_sortDesc s).mem_iff.mp (hs ▸ List.mem_cons_self))

/-! ### The features without oneself -/

section Erase

variable {ln : K → K} {cat : Catalog K n d} {r : Fin n} {pos neg : List (Fin n)}

/-- The greatest similarity to a list of references and the mean of the greatest ten. -/
def stats (cat : Catalog K n d) (r : Fin n) (l : List (Fin n)) : K × K :=
  simStats (sims cat r l) (ownColumn r l) (-1)

def similarities (cat : Catalog K n d) (r : Fin n) (pos neg : List (Fin n)) : K × K × K × K :=
  ((stats cat r pos).1, (stats cat r pos).2,
    if 0 < neg.length then max ((stats cat r neg).1 - (stats cat r pos).1) 0 else 0,
    if 0 < neg.length then max ((stats cat r neg).2 - (stats cat r pos).2) 0 else 0)

omit [IsStrictOrderedRing K] in
theorem feature_eq_iff {pos' neg' : List (Fin n)}
    (hcount : ∀ m : Sparse K n, m.OneHot →
      meanLogodds m r (logodds ln m pos neg) (variant (refsOf ln cat pos neg) r) =
        meanLogodds m r (logodds ln m pos' neg') (variant (refsOf ln cat pos' neg') r))
    (hpos : ∀ m : Sparse K n, m.Nonneg → overlapMax r m pos = overlapMax r m pos')
    (hneg : ∀ m : Sparse K n, m.Nonneg → overlapMax r m neg = overlapMax r m neg') :
    feature cat (refsOf ln cat pos neg) r = feature cat (refsOf ln cat pos' neg') r ↔
      similarities cat r pos neg = similarities cat r pos' neg' := by
  constructor
  · intro h
    obtain ⟨h0, h1, h2, h3, _⟩ := FeatureRow.mk.inj h
    exact Prod.ext h0 (Prod.ext h1 (Prod.ext h2 h3))
  · intro h
    obtain ⟨h0, h⟩ := Prod.mk.inj h
    obtain ⟨h1, h⟩ := Prod.mk.inj h
    obtain ⟨h2, h3⟩ := Prod.mk.inj h
    exact (FeatureRow.mk.injEq ..).mpr ⟨h0, h1, h2, h3,
      hpos _ cat.cast_nonneg, hneg _ cat.cast_nonneg, hpos _ cat.crew_nonneg,
      hneg _ cat.crew_nonneg, hpos _ cat.kw_nonneg, hneg _ cat.kw_nonneg,
      hcount _ cat.genre_oneHot, hcount _ cat.lang_oneHot, hcount _ cat.decade_oneHot,
      rfl, rfl, rfl, rfl, rfl⟩

omit [IsStrictOrderedRing K] in
theorem stats_notMem {l : List (Fin n)} (h : r ∉ l) :
    stats cat r l = (greatest (sims cat r l), topMean (sims cat r l)) := by
  rw [stats, ownColumn_of_notMem h, simStats_none]

omit [IsStrictOrderedRing K] in
theorem stats_mem {l : List (Fin n)} (h : r ∈ l) : stats cat r l =
    (greatest (-1 :: sims cat r (l.erase r)), topMean (-1 :: sims cat r (l.erase r))) :=
  simStats_own h

omit [IsStrictOrderedRing K] in
theorem variant_plain {ln : K → K} (hpos : r ∉ pos) (hneg : r ∉ neg) :
    variant (refsOf ln cat pos neg) r = .plain := by
  rw [variant, refsOf, ownColumn_of_notMem hpos, ownColumn_of_notMem hneg]
  rfl

omit [IsStrictOrderedRing K] in
theorem variant_minusPos {ln : K → K} (hpos : r ∈ pos) :
    variant (refsOf ln cat pos neg) r = .minusPos :=
  if_pos (List.isSome_idxOf?.mpr hpos)

omit [IsStrictOrderedRing K] in
theorem variant_minusNeg {ln : K → K} (hpos : r ∉ pos) (hneg : r ∈ neg) :
    variant (refsOf ln cat pos neg) r = .minusNeg := by
  rw [variant, refsOf, ownColumn_of_notMem hpos]
  exact (if_neg Bool.false_ne_true).trans (if_pos (List.isSome_idxOf?.mpr hneg))

theorem not_mem_erase {l : List (Fin n)} (h : l.Nodup) : r ∉ l.erase r :=
  fun hr => (h.mem_erase_iff.mp hr).1 rfl

/-- **What is left of the features of a member of the positives**: only the similarities may
change without it. -/
theorem feature_erase_pos_iff (hpos : pos.Nodup) (hr : r ∈ pos) (hneg : r ∉ neg) :
    feature cat (refsOf ln cat pos neg) r = feature cat (refsOf ln cat (pos.erase r) neg) r ↔
      similarities cat r pos neg = similarities cat r (pos.erase r) neg := by
  refine feature_eq_iff (fun m hm => ?_) (fun m hm => overlapMax_erase hm hpos r) fun m _ => rfl
  rw [variant_minusPos hr, variant_plain (not_mem_erase hpos) hneg]
  exact meanLogodds_congr fun e he => logodds_erase_pos ln hm hr neg he

theorem feature_erase_neg_iff (hneg : neg.Nodup) (hr : r ∈ neg) (hpos : r ∉ pos) :
    feature cat (refsOf ln cat pos neg) r = feature cat (refsOf ln cat pos (neg.erase r)) r ↔
      similarities cat r pos neg = similarities cat r pos (neg.erase r) := by
  refine feature_eq_iff (fun m hm => ?_) (fun m _ => rfl) fun m hm => overlapMax_erase hm hneg r
  rw [variant_minusNeg hpos hr, variant_plain hpos (not_mem_erase hneg)]
  exact meanLogodds_congr fun e he => logodds_erase_neg ln hm pos hr he

/-- **The similarities of a member of the positives are those without it** if ten others are there,
or some, and each is its opposite. -/
theorem similarities_erase_pos_iff (hpos : pos.Nodup) (hr : r ∈ pos) :
    similarities cat r pos neg = similarities cat r (pos.erase r) neg ↔
      topKCount ≤ (pos.erase r).length ∨
        pos.erase r ≠ [] ∧ ∀ p ∈ pos.erase r, dot (cat.emb r) (cat.emb p) = -1 := by
  have hle := neg_one_le_sims cat r (l := pos.erase r)
  have hlen : (sims cat r (pos.erase r)).length = (pos.erase r).length := List.length_map ..
  have hpair : similarities cat r pos neg = similarities cat r (pos.erase r) neg ↔
      stats cat r pos = stats cat r (pos.erase r) := by
    constructor
    · intro h
      obtain ⟨h0, h⟩ := Prod.mk.inj h
      exact Prod.ext h0 (Prod.mk.inj h).1
    · intro h
      rw [similarities, similarities, h]
  rw [hpair, stats_mem hr, stats_notMem (not_mem_erase hpos), Prod.mk.injEq]
  rcases Nat.eq_zero_or_pos (pos.erase r).length with hzero | hsome
  · -- alone among the positives it is nearest to nothing, and without it to zero
    have hnil : pos.erase r = [] := List.length_eq_zero_iff.mp hzero
    refine ⟨fun h => absurd h.1 ?_, fun h => ?_⟩
    · rw [hnil]
      exact neg_one_lt_zero.ne
    · rw [hzero] at h
      exact absurd h (not_or.mpr ⟨by decide, fun h => h.1 hnil⟩)
  · have hne : sims cat r (pos.erase r) ≠ [] := List.ne_nil_of_length_pos (hlen ▸ hsome)
    have hne' : pos.erase r ≠ [] := List.ne_nil_of_length_pos hsome
    rw [greatest_cons hle hne, eq_self_iff_true, true_and]
    rcases Nat.lt_or_ge (pos.erase r).length topKCount with hlt | hge
    · rw [(topMean_fill hle (hlen ▸ hsome) (hlen ▸ hlt)).2, or_iff_right (not_le.mpr hlt),
        and_iff_right hne', sims, List.forall_mem_map]
    · exact ⟨fun _ => .inl hge, fun _ => topMean_cons hle (hlen ▸ hge)⟩

/-- **The similarities of a member of the negatives are those without it** if ten others are there
or none, or if these are on average no nearer than the nearest of the positives. -/
theorem similarities_erase_neg_iff (hneg : neg.Nodup) (hr : r ∈ neg) (hpos : r ∉ pos) :
    similarities cat r pos neg = similarities cat r pos (neg.erase r) ↔
      topKCount ≤ (neg.erase r).length ∨ neg.erase r = [] ∨
        (sims cat r (neg.erase r)).sum / (neg.erase r).length ≤ topMean (sims cat r pos) := by
  have hle := neg_one_le_sims cat r (l := neg.erase r)
  have hlen : (sims cat r (neg.erase r)).length = (neg.erase r).length := List.length_map ..
  have hcount : 0 < neg.length := List.length_pos_of_mem hr
  have htop : -1 ≤ topMean (sims cat r pos) := neg_one_le_topMean (neg_one_le_sims cat r)
  have hmax : -1 ≤ greatest (sims cat r pos) := neg_one_le_greatest (neg_one_le_sims cat r)
  rw [similarities, similarities, stats_mem hr, stats_notMem hpos,
    stats_notMem (not_mem_erase hneg), if_pos hcount, if_pos hcount]
  simp only [Prod.mk.injEq, true_and]
  rcases Nat.eq_zero_or_pos (neg.erase r).length with hzero | hsome
  · -- alone among the negatives it is as far from them as can be
    have hnil : neg.erase r = [] := List.length_eq_zero_iff.mp hzero
    refine ⟨fun _ => .inr (.inl hnil), fun _ => ?_⟩
    have hmean : topMean ([-1] : List K) = -1 := by
      rw [topMean_of_le (s := [(-1 : K)]) (show 1 ≤ 10 by decide), List.sum_singleton,
        List.length_singleton, Nat.cast_one, div_one]
    have hgreatest : greatest ([-1] : List K) = -1 := rfl
    rw [hzero, if_neg (lt_irrefl 0), if_neg (lt_irrefl 0), hnil, sims, List.map_nil, hmean,
      hgreatest]
    exact ⟨max_eq_right (by linarith), max_eq_right (by linarith)⟩
  · have hne : sims cat r (neg.erase r) ≠ [] := List.ne_nil_of_length_pos (hlen ▸ hsome)
    have hne' : neg.erase r ≠ [] := List.ne_nil_of_length_pos hsome
    rw [greatest_cons hle hne, if_pos hsome, if_pos hsome, eq_self_iff_true, true_and]
    rcases Nat.lt_or_ge (neg.erase r).length topKCount with hlt | hge
    · obtain ⟨hless, heq⟩ := topMean_fill hle (hlen ▸ hsome) (hlen ▸ hlt)
      rw [or_iff_right (not_le.mpr hlt), or_iff_right hne', ← hlen,
        ← topMean_of_le (hlen ▸ hlt.le)]
      constructor
      · intro hmax
        by_contra hgt
        have hgt := not_le.mp hgt
        rw [max_eq_left (sub_nonneg.mpr hgt.le)] at hmax
        rcases le_total (topMean (-1 :: sims cat r (neg.erase r)) - topMean (sims cat r pos)) 0
          with hneg | hpos
        · rw [max_eq_right hneg] at hmax
          linarith
        · -- then nothing is lowered, and the mean is as low as can be
          rw [max_eq_left hpos] at hmax
          have hall := heq.mp (by linarith)
          have hlow := topMean_of_forall_neg_one (hlen ▸ hsome) (hlen ▸ hlt.le) hall
          linarith
      · intro hle
        rw [max_eq_right (by linarith), max_eq_right (by linarith)]
    · exact ⟨fun _ => .inl hge, fun _ => by rw [topMean_cons hle (hlen ▸ hge)]⟩

end Erase

/-! ### Leaving oneself out -/

omit [LinearOrder K] [IsStrictOrderedRing K] in
theorem sum_map_sort (f : Fin n → K) (p : Finset (Fin n)) : (p.sort.map f).sum = ∑ s ∈ p, f s := by
  rw [Finset.sum, ← Finset.sort_eq p (· ≤ ·), Multiset.map_coe, Multiset.sum_coe]

theorem length_sort_erase {p : Finset (Fin n)} {r : Fin n} (hr : r ∈ p) :
    (p.sort.erase r).length + 1 = p.card := by
  rw [← sort_erase, Finset.length_sort, Finset.card_erase_add_one hr]

/-- How near a title is to the nearest titles of a set: the mean of the ten greatest similarities,
zero if the set is empty. -/
def nearness (cat : Catalog K n d) (r : Fin n) (p : Finset (Fin n)) : K :=
  topMean (p.sort.map fun s => dot (cat.emb r) (cat.emb s))

/-- **When the features of a member of a set are those that it has without being a member.** Of the
positives: if there are more than ten, or at least one other and each other is its opposite. Of the
negatives: if there are more than ten, or it is the only one, or the others are on average no nearer
to it than the nearest positives. -/
theorem leave_self_out_iff (ln : K → K) (cat : Catalog K n d) {p q : Finset (Fin n)}
    (h : Disjoint p q) (r : Fin n) :
    (r ∈ p → (feature cat (refs ln cat p q) r = feature cat (refs ln cat (p.erase r) q) r ↔
      topKCount < p.card ∨
        1 < p.card ∧ ∀ s ∈ p, s ≠ r → dot (cat.emb r) (cat.emb s) = -1)) ∧
    (r ∈ q → (feature cat (refs ln cat p q) r = feature cat (refs ln cat p (q.erase r)) r ↔
      topKCount < q.card ∨ q.card = 1 ∨
        (∑ s ∈ q.erase r, dot (cat.emb r) (cat.emb s)) / (q.card - 1) ≤ nearness cat r p)) := by
  have hsdiff : q \ p = q := Finset.sdiff_eq_self_of_disjoint h.symm
  constructor
  · intro hr
    have hq : r ∉ q.sort := fun hq => Finset.disjoint_left.mp h hr (Finset.mem_sort _ |>.mp hq)
    have hsdiff' : q \ p.erase r = q := Finset.sdiff_eq_self_of_disjoint
      (h.symm.mono_right (Finset.erase_subset r p))
    have hmem : r ∈ p.sort := (Finset.mem_sort _).mpr hr
    have hcard := length_sort_erase hr
    rw [refs, refs, hsdiff, hsdiff', sort_erase,
      feature_erase_pos_iff (Finset.sort_nodup ..) hmem hq,
      similarities_erase_pos_iff (Finset.sort_nodup ..) hmem]
    have hothers : (∀ s ∈ p.sort.erase r, dot (cat.emb r) (cat.emb s) = -1) ↔
        ∀ s ∈ p, s ≠ r → dot (cat.emb r) (cat.emb s) = -1 := by
      refine forall_congr' fun s => ?_
      rw [(Finset.sort_nodup ..).mem_erase_iff, Finset.mem_sort, and_comm, and_imp]
    rw [hothers, ← List.length_pos_iff]
    refine or_congr ?_ (and_congr_left' ?_)
    · omega
    · omega
  · intro hr
    have hp : r ∉ p.sort := fun hp => Finset.disjoint_left.mp h (Finset.mem_sort _ |>.mp hp) hr
    have hsdiff' : q.erase r \ p = q.erase r := Finset.sdiff_eq_self_of_disjoint
      (h.symm.mono_left (Finset.erase_subset r q))
    have hmem : r ∈ q.sort := (Finset.mem_sort _).mpr hr
    have hcard := length_sort_erase hr
    rw [refs, refs, hsdiff, hsdiff', sort_erase,
      feature_erase_neg_iff (Finset.sort_nodup ..) hmem hp,
      similarities_erase_neg_iff (Finset.sort_nodup ..) hmem hp]
    have hsize : ((q.sort.erase r).length : K) = q.card - 1 := by
      rw [← hcard, Nat.cast_add_one, add_sub_cancel_right]
    rw [hsize, sims, ← sort_erase, sum_map_sort, sort_erase, ← List.length_eq_zero_iff]
    refine or_congr ?_ (or_congr_left ?_)
    · omega
    · omega

def twoFilms : Catalog ℚ 2 1 where
  emb := fun _ _ => 1
  genre := ⟨fun _ => [(0, 1)]⟩
  lang := ⟨fun _ => [(0, 1)]⟩
  decade := ⟨fun _ => [(0, 1)]⟩
  cast := ⟨fun _ => []⟩
  crew := ⟨fun _ => []⟩
  kw := ⟨fun _ => []⟩
  rating := fun _ => 0
  logVotes := fun _ => 0
  logVoteRate := fun _ => 0
  logPop := fun _ => 0
  age := fun _ => 0
  norm_emb := by decide +kernel
  genre_oneHot := by decide
  lang_oneHot := by decide
  decade_oneHot := by decide
  cast_nonneg := by decide
  crew_nonneg := by decide
  kw_nonneg := by decide

def lnOne : ℚ → ℚ := fun _ => 0

theorem leave_self_out_twoFilms :
    feature twoFilms (refs lnOne twoFilms {0} {1}) 1 =
      feature twoFilms (refs lnOne twoFilms {0} (({1} : Finset (Fin 2)).erase 1)) 1 :=
  ((leave_self_out_iff lnOne twoFilms (by decide) 1).2 (by decide)).mpr (.inr (.inl (by decide)))

/-- **The only film that a household owns is as far from itself as can be.** -/
theorem feature_ne_twoFilms :
    feature twoFilms (refs lnOne twoFilms {0} {1}) 0 ≠
      feature twoFilms (refs lnOne twoFilms (({0} : Finset (Fin 2)).erase 0) {1}) 0 := by
  decide +kernel

end EmeraldExchange.Recommender.Features
