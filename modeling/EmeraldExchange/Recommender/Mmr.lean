import EmeraldExchange.Lib.Greedy
import Mathlib.Algebra.BigOperators.Group.List.Basic
import Mathlib.Algebra.Order.Field.Basic
import Mathlib.Algebra.Order.Field.Rat
import Mathlib.Data.List.Range
import Mathlib.Tactic.FieldSimp

/-!
# Maximal marginal relevance

`mmr_order` of `crates/recommender/src/recipes.rs`, in exact arithmetic: candidates are put in order
one after the other, each time the one whose relevance, less its similarity to the nearest of those
before, is greatest. The loop keeps for each candidate the greatest similarity to those before, and
updates it from the last one only; candidates go by their position among those that have a usable
embedding.

The rule itself says nothing of that (`Plain`): at each step all is
computed anew, from the candidates. There is exactly one order that follows it, and the loop finds
it (`plain_iff`). An embedding is usable if its coordinates are
numbers and its norm is above a small bound; that it is not zero is not enough
(`mmrOrder_short`). The norm may be any function.
-/

namespace EmeraldExchange.Recommender.Mmr

open Greedy

/-! ### The candidates -/

/-- A candidate: its embedding, of which a coordinate may not be a number, and its relevance. -/
structure Candidate (K : Type*) where
  embedding : List (Option K)
  relevance : K

variable {K : Type*} [Field K] [LinearOrder K] (norm : List K → K)

/-- `EMBED_EPS` -/
def embedEps : K := 1 / (1000000000 : ℕ)

/-- The embedding can be used: its coordinates are numbers, and its norm is not next to zero. -/
def Candidate.usable (c : Candidate K) : Bool :=
  c.embedding.all Option.isSome && embedEps < norm c.embedding.reduceOption

/-- A usable candidate: where it comes among all, its embedding of norm one, and its relevance. -/
structure Row (K : Type*) where
  index : ℕ
  unit : List K
  rel : K

/-- `valid`, with the relevances. -/
def validRows (cands : List (Candidate K)) : List (Row K) :=
  (cands.zipIdx.filter fun x => x.1.usable norm).map fun x =>
    let v := x.1.embedding.reduceOption
    ⟨x.2, v.map (· / norm v), x.1.relevance⟩

def dot (x y : List K) : K := (x.zipWith (· * ·) y).sum

/-! ### The loop -/

/-- The positions of those that are selected and of those that remain, and the greatest similarity
of each to those selected before, if there are such. -/
structure State (K : Type*) where
  selected : List ℕ
  remaining : List ℕ
  maxSim : ℕ → Option K

variable (valid : List (Row K)) (lam : K)

def unitAt (i : ℕ) : List K := (valid[i]?.map Row.unit).getD []

def relAt (i : ℕ) : K := (valid[i]?.map Row.rel).getD 0

/-- The greater of two numbers, of which the first may be missing. -/
def raise (m : Option K) (x : K) : Option K :=
  match m with
  | none => some x
  | some m => some (max m x)

/-- The similarities with that to the last one that was selected. -/
def updated (s : State K) (last : ℕ) (i : ℕ) : Option K :=
  if i ∈ s.remaining then raise (s.maxSim i) (dot (unitAt valid i) (unitAt valid last))
  else s.maxSim i

/-- The values of which the first greatest is picked, and the similarities. -/
def values (s : State K) : List K × (ℕ → Option K) :=
  match s.selected.getLast? with
  | none => (s.remaining.map (relAt valid), s.maxSim)
  | some last =>
    let maxSim := updated valid s last
    (s.remaining.map fun i => lam * relAt valid i - (1 - lam) * (maxSim i).getD 0, maxSim)

def step (s : State K) : State K :=
  let (values, maxSim) := values valid lam s
  let pick := argmax (fun a b => a < b) values
  match s.remaining[pick]? with
  | none => s
  | some i => ⟨s.selected ++ [i], s.remaining.eraseIdx pick, maxSim⟩

def loop : ℕ → State K → State K
  | 0, s => s
  | n + 1, s => if s.remaining = [] then s else loop n (step valid lam s)

/-- **`mmr_order`** -/
def mmrOrder (cands : List (Candidate K)) (lam : K) (n : ℕ) : List ℕ :=
  let valid := validRows norm cands
  let s := loop valid lam n ⟨[], List.range valid.length, fun _ => none⟩
  s.selected.map fun i => (valid[i]?.map Row.index).getD 0

/-! ### The rule -/

section Rule

variable (cands : List (Candidate K))

def Usable (i : ℕ) : Prop := ∃ c, cands[i]? = some c ∧ c.usable norm = true

def vector (i : ℕ) : List K := ((cands[i]?.map Candidate.embedding).getD []).reduceOption

def relevance (i : ℕ) : K := (cands[i]?.map Candidate.relevance).getD 0

def cosine (i j : ℕ) : K :=
  dot (vector cands i) (vector cands j) / (norm (vector cands i) * norm (vector cands j))

/-- **What the next is chosen by**: its relevance, and but for the first its greatest cosine to
those before. -/
def score (before : List ℕ) (i : ℕ) : K :=
  match (before.map (cosine norm cands i)).max? with
  | none => relevance cands i
  | some nearest => lam * relevance cands i - (1 - lam) * nearest

/-- **The order that the rule gives**: usable candidates, each once, as many as are asked for or all
there are, and each has the greatest score of those that are left when it comes, and a greater one
than those of them that are listed before it. -/
structure Plain (n : ℕ) (order : List ℕ) : Prop where
  nodup : order.Nodup
  usable : ∀ i ∈ order, Usable norm cands i
  length : order.length = min n (cands.countP (Candidate.usable norm))
  best : ∀ before i after, order = before ++ i :: after → ∀ j, Usable norm cands j → j ∉ before →
    score norm lam cands before j ≤ score norm lam cands before i ∧
      (j < i → score norm lam cands before j < score norm lam cands before i)

end Rule

/-! ### What the loop keeps -/

section Loop

variable {valid : List (Row K)} {lam : K}

/-- The greatest similarity of a position to some others. -/
def nearest (valid : List (Row K)) (before : List ℕ) (i : ℕ) : Option K :=
  (before.map fun j => dot (unitAt valid i) (unitAt valid j)).max?

/-- The score of a position after some others. -/
def rowScore (valid : List (Row K)) (lam : K) (before : List ℕ) (i : ℕ) : K :=
  match nearest valid before i with
  | none => relAt valid i
  | some m => lam * relAt valid i - (1 - lam) * m

theorem raise_nearest (before : List ℕ) (last i : ℕ) :
    raise (nearest valid before i) (dot (unitAt valid i) (unitAt valid last)) =
      nearest valid (before ++ [last]) i := by
  rw [nearest, nearest, List.map_append]
  rcases before with _ | ⟨j, before⟩
  · rfl
  · simp only [List.map_cons, List.map_nil, List.cons_append, List.max?_cons', raise,
      List.foldl_append, List.foldl_cons, List.foldl_nil]

/-- **The state of the loop**: what is selected and what remains are all positions, the latter in
their order; the similarities are those to all but the last; and each was the best when it came. -/
structure Kept (valid : List (Row K)) (lam : K) (s : State K) : Prop where
  perm : (s.selected ++ s.remaining).Perm (List.range valid.length)
  sorted : s.remaining.Pairwise (· < ·)
  sims : ∀ i ∈ s.remaining, s.maxSim i = nearest valid s.selected.dropLast i
  best : ∀ before i after, s.selected = before ++ i :: after → ∀ j < valid.length, j ∉ before →
    rowScore valid lam before j ≤ rowScore valid lam before i ∧
      (j < i → rowScore valid lam before j < rowScore valid lam before i)

variable {s : State K}

theorem Kept.mem_remaining (h : Kept valid lam s) {j : ℕ} (hj : j < valid.length)
    (hnew : j ∉ s.selected) : j ∈ s.remaining :=
  (List.mem_append.mp (h.perm.mem_iff.mpr (List.mem_range.mpr hj))).resolve_left hnew

/-- **The values are the scores after all that are selected**, although only the last of these is
compared with. -/
theorem Kept.values_eq (h : Kept valid lam s) :
    (values valid lam s).1 = s.remaining.map (rowScore valid lam s.selected) ∧
      ∀ i ∈ s.remaining, (values valid lam s).2 i = nearest valid s.selected i := by
  rw [values]
  rcases List.eq_nil_or_concat s.selected with hnil | ⟨before, last, hlast⟩
  · rw [hnil]
    refine ⟨rfl, fun i hi => (h.sims i hi).trans ?_⟩
    rw [hnil]
    rfl
  · rw [List.concat_eq_append] at hlast
    have hsims : ∀ i ∈ s.remaining, updated valid s last i = nearest valid s.selected i := by
      intro i hi
      rw [updated, if_pos hi, h.sims i hi, hlast, List.dropLast_concat, raise_nearest]
    have hlast? : s.selected.getLast? = some last := by rw [hlast, List.getLast?_concat]
    rw [hlast?]
    refine ⟨List.map_congr_left fun i hi => ?_, hsims⟩
    rw [hsims i hi, rowScore]
    rcases hm : nearest valid s.selected i with _ | m
    · -- one is selected, so that there is a nearest
      rw [hlast, ← raise_nearest] at hm
      rcases hbefore : nearest valid before i with _ | y
      · rw [hbefore] at hm
        cases hm
      · rw [hbefore] at hm
        cases hm
    · rfl

theorem best_concat {i : ℕ} (h : Kept valid lam s)
    (hi : ∀ j < valid.length, j ∉ s.selected →
      rowScore valid lam s.selected j ≤ rowScore valid lam s.selected i ∧
        (j < i → rowScore valid lam s.selected j < rowScore valid lam s.selected i)) :
    ∀ before k after, s.selected ++ [i] = before ++ k :: after → ∀ j < valid.length, j ∉ before →
      rowScore valid lam before j ≤ rowScore valid lam before k ∧
        (j < k → rowScore valid lam before j < rowScore valid lam before k) := by
  intro before k after heq
  rcases List.eq_nil_or_concat after with rfl | ⟨after, l, rfl⟩
  · obtain ⟨rfl, hlast⟩ := List.append_inj' heq rfl
    obtain rfl := (List.cons.inj hlast).1
    exact hi
  · have heq : s.selected ++ [i] = (before ++ k :: after) ++ [l] := by simpa using heq
    exact h.best before k after (List.append_inj' heq rfl).1

theorem perm_eraseIdx {selected remaining : List ℕ} {k i : ℕ} (h : remaining[k]? = some i) :
    (selected ++ [i] ++ remaining.eraseIdx k).Perm (selected ++ remaining) := by
  obtain ⟨hk, rfl⟩ := List.getElem?_eq_some_iff.mp h
  rw [List.append_assoc]
  exact (List.getElem_cons_eraseIdx_perm hk).append_left selected

/-- **A step selects the first of the best.** -/
theorem Kept.step (h : Kept valid lam s) (hne : s.remaining ≠ []) :
    Kept valid lam (step valid lam s) ∧
      (Mmr.step valid lam s).selected.length = s.selected.length + 1 := by
  obtain ⟨hvalues, hsims⟩ := h.values_eq
  have hvne : (values valid lam s).1 ≠ [] := by
    rw [hvalues]
    exact mt List.map_eq_nil_iff.mp hne
  obtain ⟨y, hfirst⟩ := firstGreatest_argmax hvne
  rw [Mmr.step]
  set pick := argmax (fun a b => a < b) (values valid lam s).1 with hpick
  have hat := hfirst.at_pos
  rw [hvalues, List.getElem?_map, Option.map_eq_some_iff] at hat
  obtain ⟨i, hi, rfl⟩ := hat
  dsimp only
  rw [← hpick, hi]
  refine ⟨⟨?_, ?_, ?_, best_concat h fun j hj hnew => ?_⟩, List.length_append⟩
  · exact (perm_eraseIdx hi).trans h.perm
  · exact h.sorted.sublist (List.eraseIdx_sublist ..)
  · intro j hj
    rw [List.dropLast_concat]
    exact hsims j (List.mem_of_mem_eraseIdx hj)
  · have hmem := h.mem_remaining hj hnew
    refine ⟨hfirst.le _ (hvalues ▸ List.mem_map_of_mem hmem), fun hlt => ?_⟩
    obtain ⟨k, hk, rfl⟩ := List.mem_iff_getElem.mp hmem
    obtain ⟨hp, rfl⟩ := List.getElem?_eq_some_iff.mp hi
    have hkp : k < pick := by
      by_contra hge
      rcases (not_lt.mp hge).lt_or_eq with hlt' | heq
      · exact absurd hlt (List.pairwise_iff_getElem.mp h.sorted pick k hp hk hlt').not_gt
      · simp only [heq] at hlt
        exact lt_irrefl _ hlt
    refine hfirst.lt k hkp _ ?_
    rw [hvalues, List.getElem?_map, List.getElem?_eq_getElem hk, Option.map_some]

/-- **The loop selects as many as are asked for**, or all. -/
theorem Kept.loop : ∀ (n : ℕ) {s : State K}, Kept valid lam s →
    Kept valid lam (loop valid lam n s) ∧
      (Mmr.loop valid lam n s).selected.length = min (s.selected.length + n) valid.length
  | 0, s, h => by
    have hlen := h.perm.length_eq
    rw [List.length_append, List.length_range] at hlen
    exact ⟨h, by rw [Mmr.loop]; omega⟩
  | n + 1, s, h => by
    have hlen := h.perm.length_eq
    rw [List.length_append, List.length_range] at hlen
    rw [Mmr.loop]
    split
    · next hnil =>
      rw [hnil, List.length_nil] at hlen
      exact ⟨h, by omega⟩
    · next hne =>
      obtain ⟨hkept, hone⟩ := h.step hne
      obtain ⟨hend, hlast⟩ := hkept.loop n
      exact ⟨hend, by rw [hlast, hone]; omega⟩

theorem kept_start : Kept valid lam ⟨[], List.range valid.length, fun _ => none⟩ where
  perm := .refl _
  sorted := List.pairwise_lt_range
  sims _ _ := rfl
  best := by
    intro before i after heq
    cases List.append_ne_nil_of_right_ne_nil before (List.cons_ne_nil i after) heq.symm

end Loop

/-! ### The rows are the usable candidates -/

section Rows

variable {norm : List K → K} {lam : K} {cands : List (Candidate K)}

def indexAt (valid : List (Row K)) (p : ℕ) : ℕ := (valid[p]?.map Row.index).getD 0

theorem getElem?_validRows {p : ℕ} (hp : p < (validRows norm cands).length) :
    ∃ i c, cands[i]? = some c ∧ c.usable norm = true ∧ (validRows norm cands)[p]? =
      some ⟨i, c.embedding.reduceOption.map (· / norm c.embedding.reduceOption), c.relevance⟩ := by
  obtain ⟨row, hat⟩ : ∃ row, (validRows norm cands)[p]? = some row :=
    ⟨_, List.getElem?_eq_getElem hp⟩
  rw [validRows, List.getElem?_map] at hat
  obtain ⟨⟨c, i⟩, hx, -⟩ := Option.map_eq_some_iff.mp hat
  obtain ⟨hmem, husable⟩ := List.mem_filter.mp (List.mem_of_getElem? hx)
  refine ⟨i, c, List.mem_zipIdx_iff_getElem?.mp hmem, husable, ?_⟩
  rw [validRows, List.getElem?_map, hx]
  rfl

theorem length_validRows :
    (validRows norm cands).length = cands.countP (Candidate.usable norm) := by
  have hfst : cands = cands.zipIdx.map Prod.fst := by simp
  unfold validRows
  rw [List.length_map, ← List.countP_eq_length_filter]
  conv_rhs => rw [hfst, List.countP_map]
  rfl

theorem usable_indexAt {p : ℕ} (hp : p < (validRows norm cands).length) :
    Usable norm cands (indexAt (validRows norm cands) p) := by
  obtain ⟨i, c, hc, husable, hrow⟩ := getElem?_validRows hp
  rw [indexAt, hrow]
  exact ⟨c, hc, husable⟩

theorem exists_indexAt {i : ℕ} (h : Usable norm cands i) :
    ∃ p < (validRows norm cands).length, indexAt (validRows norm cands) p = i := by
  obtain ⟨c, hc, husable⟩ := h
  have hmem : (c, i) ∈ cands.zipIdx.filter fun x => x.1.usable norm :=
    List.mem_filter.mpr ⟨List.mem_zipIdx_iff_getElem?.mpr hc, husable⟩
  obtain ⟨p, hp, hat⟩ := List.mem_iff_getElem.mp hmem
  refine ⟨p, ?_, ?_⟩
  · rw [validRows, List.length_map]
    exact hp
  · rw [indexAt, validRows, List.getElem?_map, List.getElem?_eq_getElem hp, hat]
    rfl

theorem indexAt_lt {p q : ℕ} (hpq : p < q) (hq : q < (validRows norm cands).length) :
    indexAt (validRows norm cands) p < indexAt (validRows norm cands) q := by
  have hsorted : ((validRows norm cands).map Row.index).Pairwise (· < ·) := by
    have hall : (cands.zipIdx.map Prod.snd).Pairwise (· < ·) := by
      rw [List.zipIdx_map_snd]
      exact List.pairwise_lt_range'
    rw [validRows, List.map_map]
    exact hall.sublist (List.filter_sublist.map Prod.snd)
  have hlt := List.pairwise_iff_getElem.mp hsorted p q (by simpa using hpq.trans hq)
    (by simpa using hq) hpq
  rw [indexAt, indexAt, List.getElem?_eq_getElem hq, List.getElem?_eq_getElem (hpq.trans hq)]
  simpa using hlt

theorem indexAt_lt_iff {p q : ℕ} (hp : p < (validRows norm cands).length)
    (hq : q < (validRows norm cands).length) :
    indexAt (validRows norm cands) p < indexAt (validRows norm cands) q ↔ p < q := by
  refine ⟨fun hlt => ?_, fun hlt => indexAt_lt hlt hq⟩
  rcases Nat.lt_trichotomy p q with h | rfl | h
  · exact h
  · exact absurd hlt (lt_irrefl _)
  · exact absurd hlt (indexAt_lt h hp).not_gt

theorem indexAt_inj {p q : ℕ} (hp : p < (validRows norm cands).length)
    (hq : q < (validRows norm cands).length)
    (h : indexAt (validRows norm cands) p = indexAt (validRows norm cands) q) : p = q := by
  rcases Nat.lt_trichotomy p q with hlt | rfl | hlt
  · exact absurd h (indexAt_lt hlt hq).ne
  · rfl
  · exact absurd h (indexAt_lt hlt hp).ne'

theorem relAt_eq {p : ℕ} (hp : p < (validRows norm cands).length) :
    relAt (validRows norm cands) p = relevance cands (indexAt (validRows norm cands) p) := by
  obtain ⟨i, c, hc, -, hrow⟩ := getElem?_validRows hp
  rw [relAt, indexAt, hrow, relevance]
  dsimp only [Option.map_some, Option.getD_some]
  rw [hc]
  rfl

omit [LinearOrder K] in
theorem dot_map_div (a b : K) : ∀ x y : List K,
    dot (x.map (· / a)) (y.map (· / b)) = dot x y / (a * b)
  | [], _ => by simp [dot]
  | _ :: _, [] => by simp [dot]
  | u :: x, v :: y => by
    have ih := dot_map_div a b x y
    rw [dot, dot] at ih
    rw [dot, dot, List.map_cons, List.map_cons, List.zipWith_cons_cons, List.zipWith_cons_cons,
      List.sum_cons, List.sum_cons, ih, add_div, div_mul_div_comm]

/-- **The product of two rows of norm one is the cosine of the candidates.** -/
theorem dot_unitAt {p q : ℕ} (hp : p < (validRows norm cands).length)
    (hq : q < (validRows norm cands).length) :
    dot (unitAt (validRows norm cands) p) (unitAt (validRows norm cands) q) =
      cosine norm cands (indexAt (validRows norm cands) p) (indexAt (validRows norm cands) q) := by
  have hunit : ∀ r < (validRows norm cands).length, unitAt (validRows norm cands) r =
      (vector cands (indexAt (validRows norm cands) r)).map
        (· / norm (vector cands (indexAt (validRows norm cands) r))) := by
    intro r hr
    obtain ⟨i, c, hc, -, hrow⟩ := getElem?_validRows hr
    rw [unitAt, indexAt, hrow, vector]
    dsimp only [Option.map_some, Option.getD_some]
    rw [hc]
    rfl
  rw [hunit p hp, hunit q hq, dot_map_div]
  rfl

/-- **The score of a row is that of its candidate.** -/
theorem rowScore_eq {before : List ℕ} (hbefore : ∀ q ∈ before, q < (validRows norm cands).length)
    {p : ℕ} (hp : p < (validRows norm cands).length) :
    rowScore (validRows norm cands) lam before p =
      score norm lam cands (before.map (indexAt (validRows norm cands)))
        (indexAt (validRows norm cands) p) := by
  have hnearest : nearest (validRows norm cands) before p =
      ((before.map (indexAt (validRows norm cands))).map
        (cosine norm cands (indexAt (validRows norm cands) p))).max? := by
    rw [nearest, List.map_map, List.map_congr_left fun q hq => dot_unitAt hp (hbefore q hq)]
    rfl
  rw [rowScore, hnearest, score, relAt_eq hp]

end Rows

/-! ### The loop follows the rule -/

section Order

variable {norm : List K → K} {lam : K} {cands : List (Candidate K)} {n : ℕ}

/-- **What the loop selects follows the rule.** -/
theorem plain_mmrOrder : Plain norm lam cands n (mmrOrder norm cands lam n) := by
  have hstart : Kept (validRows norm cands) lam
      ⟨[], List.range (validRows norm cands).length, fun _ => none⟩ := kept_start
  obtain ⟨hkept, hlen⟩ := hstart.loop n
  rw [List.length_nil, Nat.zero_add] at hlen
  have hlt : ∀ p ∈ (loop (validRows norm cands) lam n
      ⟨[], List.range (validRows norm cands).length, fun _ => none⟩).selected,
      p < (validRows norm cands).length := fun p hp =>
    List.mem_range.mp (hkept.perm.mem_iff.mp (List.mem_append_left _ hp))
  have horder : mmrOrder norm cands lam n = (loop (validRows norm cands) lam n
      ⟨[], List.range (validRows norm cands).length, fun _ => none⟩).selected.map
        (indexAt (validRows norm cands)) := rfl
  rw [horder]
  constructor
  · have hnodup := (hkept.perm.nodup_iff.mpr List.nodup_range).of_append_left
    exact (List.nodup_map_iff_inj_on hnodup).mpr fun p hp q hq =>
      indexAt_inj (hlt p hp) (hlt q hq)
  · intro i hi
    obtain ⟨p, hp, rfl⟩ := List.mem_map.mp hi
    exact usable_indexAt (hlt p hp)
  · rw [List.length_map, hlen, length_validRows]
  · intro before i after heq j hj hnew
    obtain ⟨before, rest, hselected, rfl, hrest⟩ := List.map_eq_append_iff.mp heq
    obtain ⟨p, after, rfl, rfl, rfl⟩ := List.map_eq_cons_iff.mp hrest
    obtain ⟨q, hq, rfl⟩ := exists_indexAt hj
    rw [hselected] at hlt
    have hp : p < (validRows norm cands).length := hlt p (by simp)
    have hbefore : ∀ r ∈ before, r < (validRows norm cands).length := fun r hr =>
      hlt r (List.mem_append_left _ hr)
    obtain ⟨hle, hless⟩ := hkept.best before p after hselected q hq fun hmem =>
      hnew (List.mem_map_of_mem hmem)
    rw [rowScore_eq hbefore hp, rowScore_eq hbefore hq] at hle hless
    exact ⟨hle, fun h => hless ((indexAt_lt_iff hq hp).mp h)⟩

theorem Plain.next_le {before after after' : List ℕ} {i i' : ℕ}
    (h : Plain norm lam cands n (before ++ i :: after))
    (h' : Plain norm lam cands n (before ++ i' :: after')) : i ≤ i' := by
  have hnew : i' ∉ before := fun hmem =>
    List.disjoint_of_nodup_append h'.nodup hmem List.mem_cons_self
  have hnew' : i ∉ before := fun hmem =>
    List.disjoint_of_nodup_append h.nodup hmem List.mem_cons_self
  have hi := h.best before i after rfl i' (h'.usable i' (by simp)) hnew
  have hi' := h'.best before i' after' rfl i (h.usable i (by simp)) hnew'
  by_contra hlt
  exact absurd (hi.2 (Nat.lt_of_not_le hlt)) hi'.1.not_gt

/-- **Two orders that follow the rule go on alike.** -/
theorem Plain.rest_eq : ∀ (before : List ℕ) {after after' : List ℕ},
    Plain norm lam cands n (before ++ after) → Plain norm lam cands n (before ++ after') →
    after = after'
  | before, [], after', h, h' => by
    have hlen := h.length.trans h'.length.symm
    rw [List.length_append, List.length_append, List.length_nil] at hlen
    exact (List.eq_nil_of_length_eq_zero (by omega)).symm
  | before, i :: after, [], h, h' => by
    have hlen := h.length.trans h'.length.symm
    rw [List.length_append, List.length_append, List.length_nil, List.length_cons] at hlen
    omega
  | before, i :: after, i' :: after', h, h' => by
    obtain rfl : i = i' := Nat.le_antisymm (h.next_le h') (h'.next_le h)
    have ih : after = after' := Plain.rest_eq (before ++ [i]) (by simpa using h) (by simpa using h')
    rw [ih]

/-- **The order that `mmr_order` returns is the one that follows the rule.** -/
theorem plain_iff (norm : List K → K) (lam : K) (cands : List (Candidate K)) (n : ℕ)
    (order : List ℕ) :
    Plain norm lam cands n order ↔ order = mmrOrder norm cands lam n := by
  constructor
  · intro h
    exact Plain.rest_eq [] h plain_mmrOrder
  · rintro rfl
    exact plain_mmrOrder

end Order

/-- **A candidate may have an embedding that is not zero, and not be listed**: its norm is too
small. -/
theorem mmrOrder_short :
    let norm : List ℚ → ℚ := fun v => |v.headD 0|
    let cands : List (Candidate ℚ) := [⟨[some (1 / 10 ^ 9)], 1⟩]
    (∀ c ∈ cands, c.embedding.all Option.isSome = true ∧ norm c.embedding.reduceOption ≠ 0) ∧
      (mmrOrder norm cands (1 / 2) 1).length ≠ min 1 cands.length := by
  decide +kernel

end EmeraldExchange.Recommender.Mmr
