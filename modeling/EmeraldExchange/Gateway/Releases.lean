import EmeraldExchange.Gateway.JsNumber
import EmeraldExchange.Lib.BinaryOrder
import EmeraldExchange.Lib.SortBy

/-!
# Releases in order

What the indexers offer for a title is a list of releases, and the best of them is grabbed: the one
with the highest weight, or a pack of a season first, then the highest weight, then the smallest. A
release may have no weight. Then it ties with every other release, also with two that do not tie, so
that what goes before is not passed on, and the sort may leave a lower weight before a higher one.
The comparators order a list exactly when no weight is missing or all weights are the same, and no
size is missing where sizes decide (`orderly_iff`).
-/

namespace EmeraldExchange.Gateway.Releases

open SortBy Binary64

/-! ### The comparators -/

/-- A numeric field; not a number where it is absent or none. -/
def fieldF64 (v : JsonTree) (k : String) : Binary64 := ((v.get k).bind asF64).getD .nan

def isTrue (r : JsonTree) (k : String) : Bool := (r.get k).any truthy

def weight (r : JsonTree) : Binary64 := fieldF64 r "qualityWeight"

def size (r : JsonTree) : Binary64 := fieldF64 r "size"

def fullSeason (r : JsonTree) : Bool := isTrue r "fullSeason"

/-- The comparator of `by_quality`. -/
def qualityCmp (a b : JsonTree) : Ordering := (partialCmp (weight b) (weight a)).getD .eq

/-- **`by_quality`** -/
def byQuality (releases : List JsonTree) : List JsonTree := sortBy qualityCmp releases

/-- What a difference decides: nothing where it is zero or not a number. -/
def decided (d : Binary64) : Option Ordering := (partialCmp d (.finite 0)).filter (· ≠ .eq)

/-- **`rank`**: packs first, then the higher weight, then the smaller release. -/
def rank (a b : JsonTree) : Ordering :=
  if fullSeason a ≠ fullSeason b then if fullSeason a then .lt else .gt
  else ((decided (sub (weight b) (weight a))).or (decided (sub (size a) (size b)))).getD .eq

/-! ### What is compared -/

theorem isDouble_fieldF64 (v : JsonTree) (k : String) : IsDouble (fieldF64 v k) := by
  rw [fieldF64]
  rcases h : (v.get k).bind asF64 with _ | x
  · exact .inl rfl
  · obtain ⟨w, -, hx⟩ := Option.bind_eq_some_iff.mp h
    obtain ⟨q, -, hq⟩ := Option.map_eq_some_iff.mp hx
    exact .inr ⟨q, hq.symm⟩

theorem decided_sub (a b : JsonTree) (k : String) :
    decided (sub (fieldF64 a k) (fieldF64 b k)) = sign (fieldF64 a k) (fieldF64 b k) := by
  rw [decided, partialCmp_filter,
    sign_sub (isDouble_fieldF64 a k) (isDouble_fieldF64 b k)]

theorem qualityCmp_eq (a b : JsonTree) :
    qualityCmp a b = (sign (weight b) (weight a)).getD .eq := partialCmp_getD _ _

theorem rank_of_ne {a b : JsonTree} (h : fullSeason a ≠ fullSeason b) :
    rank a b = if fullSeason a then .lt else .gt := if_pos h

theorem rank_of_eq {a b : JsonTree} (h : fullSeason a = fullSeason b) :
    rank a b = ((sign (weight b) (weight a)).or (sign (size a) (size b))).getD .eq := by
  rw [rank, if_neg (not_not.mpr h), weight, weight, size, size, decided_sub, decided_sub]

theorem getD_sign_eq_gt {x y : Binary64} : (sign x y).getD .eq = .gt ↔ lt y x = true := by
  rw [← sign_eq_gt]
  rcases sign x y with _ | _ | _ | _ <;> simp

theorem qualityCmp_eq_gt {a b : JsonTree} :
    qualityCmp a b = .gt ↔ lt (weight a) (weight b) = true := by
  rw [qualityCmp_eq, getD_sign_eq_gt]

def Level (a b : JsonTree) : Prop :=
  lt (weight a) (weight b) = false ∧ lt (weight b) (weight a) = false

theorem Level.symm {a b : JsonTree} (h : Level a b) : Level b a := ⟨h.2, h.1⟩

/-- **Of two releases that are both packs or both not, one goes behind the other** when its weight
is lower, or its size is greater where the weights are level. -/
theorem rank_eq_gt {a b : JsonTree} (h : fullSeason a = fullSeason b) :
    rank a b = .gt ↔
      lt (weight a) (weight b) = true ∨ Level a b ∧ lt (size b) (size a) = true := by
  rw [rank_of_eq h, Level]
  rcases hab : lt (weight a) (weight b) with _ | _
  · rcases hba : lt (weight b) (weight a) with _ | _
    · rw [sign_eq_none.mpr ⟨hba, hab⟩, Option.none_or, getD_sign_eq_gt]
      simp
    · rw [sign_eq_lt.mpr hba]
      simp
  · rw [sign_eq_gt.mpr hab]
    simp

theorem qualityCmp_swap (a b : JsonTree) : qualityCmp a b = (qualityCmp b a).swap := by
  rw [qualityCmp_eq, qualityCmp_eq, sign_swap]
  rcases sign (weight a) (weight b) with _ | _ | _ | _ <;> rfl

theorem rank_swap (a b : JsonTree) : rank a b = (rank b a).swap := by
  by_cases h : fullSeason a = fullSeason b
  · rw [rank_of_eq h, rank_of_eq h.symm, sign_swap (weight b), sign_swap (size a)]
    rcases sign (weight a) (weight b) with _ | _ | _ | _
    · rcases sign (size b) (size a) with _ | _ | _ | _ <;> rfl
    · rfl
    · rfl
    · rfl
  · rw [rank_of_ne h, rank_of_ne (Ne.symm h)]
    rcases ha : fullSeason a with _ | _
    · rcases hb : fullSeason b with _ | _
      · exact absurd (ha.trans hb.symm) h
      · rfl
    · rcases hb : fullSeason b with _ | _
      · rfl
      · exact absurd (ha.trans hb.symm) h

/-! ### Where the comparators fit together -/

/-- **The releases can be compared**: no weight is missing, or none is higher than another; and of
three releases, all packs or none of them, whose weights are level, the second one has a size where
the sizes of the others differ. -/
structure Comparable (releases : List JsonTree) : Prop where
  weights : (∀ r ∈ releases, weight r ≠ .nan) ∨
    ∀ r ∈ releases, ∀ r' ∈ releases, lt (weight r) (weight r') = false
  sizes : ∀ a ∈ releases, ∀ b ∈ releases, ∀ c ∈ releases,
    fullSeason a = fullSeason b → fullSeason b = fullSeason c →
    Level a b → Level b c → Level a c → lt (size a) (size c) = true → size b ≠ .nan

theorem Comparable.weight_lt {releases : List JsonTree} (h : Comparable releases) {a b c : JsonTree}
    (ha : a ∈ releases) (hb : b ∈ releases) (hc : c ∈ releases)
    (hlt : lt (weight a) (weight c) = true) :
    lt (weight a) (weight b) = true ∨ lt (weight b) (weight c) = true := by
  rcases h.weights with hall | hlevel
  · exact lt_or_lt (hall b hb) hlt
  · rw [hlevel a ha c hc] at hlt
    cases hlt

theorem orders_qualityCmp {releases : List JsonTree} (h : Comparable releases) :
    Orders qualityCmp releases where
  swap a _ b _ := qualityCmp_swap a b
  trans a ha b hb c hc hab hbc := by
    intro hac
    rcases h.weight_lt ha hb hc (qualityCmp_eq_gt.mp hac) with hlt | hlt
    · exact hab (qualityCmp_eq_gt.mpr hlt)
    · exact hbc (qualityCmp_eq_gt.mpr hlt)

theorem rank_trans_of_eq {releases : List JsonTree} (h : Comparable releases) {a b c : JsonTree}
    (ha : a ∈ releases) (hb : b ∈ releases) (hc : c ∈ releases)
    (hfab : fullSeason a = fullSeason b) (hfbc : fullSeason b = fullSeason c)
    (hab : rank a b ≠ .gt) (hbc : rank b c ≠ .gt) : rank a c ≠ .gt := by
  rw [ne_eq, rank_eq_gt hfab, not_or] at hab
  rw [ne_eq, rank_eq_gt hfbc, not_or] at hbc
  rw [ne_eq, rank_eq_gt (hfab.trans hfbc)]
  rintro (hlt | ⟨hlevel, hlt⟩)
  · rcases h.weight_lt ha hb hc hlt with hlt | hlt
    · exact hab.1 hlt
    · exact hbc.1 hlt
  · have hlab : lt (weight a) (weight b) = false := Bool.eq_false_iff.mpr hab.1
    have hlbc : lt (weight b) (weight c) = false := Bool.eq_false_iff.mpr hbc.1
    -- a weight that is lower than one of two level weights is lower than the other
    have hsame : Level a b := by
      refine ⟨hlab, Bool.eq_false_iff.mpr fun hba => ?_⟩
      rcases h.weight_lt hb hc ha hba with hbc' | hca
      · exact hbc.1 hbc'
      · exact Bool.eq_false_iff.mp hlevel.2 hca
    have hsame' : Level b c := by
      refine ⟨hlbc, Bool.eq_false_iff.mpr fun hcb => ?_⟩
      rcases h.weight_lt hc ha hb hcb with hca | hab'
      · exact Bool.eq_false_iff.mp hlevel.2 hca
      · exact hab.1 hab'
    have hsize := h.sizes c hc b hb a ha hfbc.symm hfab.symm hsame'.symm hsame.symm
      hlevel.symm hlt
    rcases lt_or_lt hsize hlt with hcb | hba
    · exact hbc.2 ⟨hsame', hcb⟩
    · exact hab.2 ⟨hsame, hba⟩

theorem orders_rank {releases : List JsonTree} (h : Comparable releases) :
    Orders rank releases where
  swap a _ b _ := rank_swap a b
  trans a ha b hb c hc hab hbc := by
    by_cases hfab : fullSeason a = fullSeason b
    · by_cases hfbc : fullSeason b = fullSeason c
      · exact rank_trans_of_eq h ha hb hc hfab hfbc hab hbc
      · rw [rank_of_ne hfbc] at hbc
        rw [rank_of_ne (hfab ▸ hfbc), hfab]
        exact hbc
    · rw [rank_of_ne hfab] at hab
      rcases hpa : fullSeason a with _ | _
      · rw [hpa] at hab
        exact absurd rfl hab
      · rcases hpb : fullSeason b with _ | _
        · have hfac : fullSeason a ≠ fullSeason c := by
            intro hfac
            rw [rank_of_ne (by rw [hpb, ← hfac, hpa]; exact Bool.false_ne_true), hpb] at hbc
            exact hbc rfl
          rw [rank_of_ne hfac, hpa]
          exact Ordering.noConfusion
        · exact absurd (hpa.trans hpb.symm) hfab

/-- **The order of releases**: the comparators order the list, so that the sort cannot fail; what
comes first does not depend on how the list came in, but for ties; and a higher weight goes before a
lower one. -/
structure Orderly (releases : List JsonTree) : Prop where
  quality : Orders qualityCmp releases
  rank : Orders rank releases
  bestQuality : ∀ others : List JsonTree, others.Perm releases → ∀ a b,
    (byQuality releases).head? = some a → (byQuality others).head? = some b →
    qualityCmp a b = .eq
  bestRank : ∀ others : List JsonTree, others.Perm releases → ∀ a b,
    (sortBy Releases.rank releases).head? = some a →
    (sortBy Releases.rank others).head? = some b → Releases.rank a b = .eq
  placed : (byQuality releases).Pairwise fun a b => lt (weight a) (weight b) = false

theorem orderly_of_comparable {releases : List JsonTree} (h : Comparable releases) :
    Orderly releases where
  quality := orders_qualityCmp h
  rank := orders_rank h
  bestQuality _ hperm _ _ ha hb := tie_of_head (orders_qualityCmp h) hperm ha hb
  bestRank _ hperm _ _ ha hb := tie_of_head (orders_rank h) hperm ha hb
  placed := (pairwise_sortBy (orders_qualityCmp h)).imp fun hne =>
    Bool.eq_false_iff.mpr fun hlt => hne (qualityCmp_eq_gt.mpr hlt)

theorem qualityCmp_of_nan {a b : JsonTree} (h : weight a = .nan ∨ weight b = .nan) :
    qualityCmp a b ≠ .gt := by
  rw [ne_eq, qualityCmp_eq_gt]
  rcases h with h | h
  · rw [h, lt_nan_left]
    exact Bool.false_ne_true
  · rw [h, lt_nan_right]
    exact Bool.false_ne_true

theorem comparable_of_orders {releases : List JsonTree} (hquality : Orders qualityCmp releases)
    (hrank : Orders rank releases) : Comparable releases where
  weights := by
    by_cases hall : ∀ r ∈ releases, weight r ≠ .nan
    · exact .inl hall
    · right
      push Not at hall
      obtain ⟨m, hm, hnan⟩ := hall
      intro a ha c hc
      refine Bool.eq_false_iff.mpr fun hlt => ?_
      refine hquality.trans a ha m hm c hc ?_ ?_ (qualityCmp_eq_gt.mpr hlt)
      · exact qualityCmp_of_nan (.inr hnan)
      · exact qualityCmp_of_nan (.inl hnan)
  sizes a ha b hb c hc hfab hfbc hlab hlbc hlac hlt := by
    intro hnan
    have hne : ∀ {x y : JsonTree}, fullSeason x = fullSeason y → Level x y →
        size x = .nan ∨ size y = .nan → rank x y ≠ .gt := by
      intro x y hf hlevel hsize
      rw [ne_eq, rank_eq_gt hf, hlevel.1]
      rintro (h | ⟨-, h⟩)
      · cases h
      · rcases hsize with hsize | hsize
        · rw [hsize, lt_nan_right] at h
          cases h
        · rw [hsize, lt_nan_left] at h
          cases h
    refine hrank.trans c hc b hb a ha ?_ ?_ ?_
    · exact hne hfbc.symm hlbc.symm (.inr hnan)
    · exact hne hfab.symm hlab.symm (.inl hnan)
    · exact (rank_eq_gt (hfab.trans hfbc).symm).mpr (.inr ⟨hlac.symm, hlt⟩)

/-- **Releases are ordered exactly when they can be compared.** -/
theorem orderly_iff (releases : List JsonTree) : Orderly releases ↔ Comparable releases :=
  ⟨fun h => comparable_of_orders h.quality h.rank, orderly_of_comparable⟩

def offer (weight : Option ℤ) : JsonTree :=
  .obj ((weight.map fun w => ("qualityWeight", .int w)).toList ++ [("size", .int 1)])

/-- Between two weights a missing one: the lower weight stays before the higher one. -/
theorem not_orderly_missing : ¬ ∀ releases, Orderly releases := by
  intro hall
  have hweight : ∀ w : ℤ, w.natAbs ≤ 2 ^ 53 → weight (offer (some w)) = .finite w := by
    intro w hw
    have hget : (offer (some w)).get "qualityWeight" = some (.int w) := rfl
    rw [weight, fieldF64, hget]
    show ofRat (w : ℚ) = _
    exact ofRat_intCast hw
  have hnan : weight (offer none) = .nan := rfl
  have h := (hall [offer (some 1), offer none, offer (some 2)]).quality.trans (offer (some 1))
    (by simp) (offer none) (by simp) (offer (some 2)) (by simp)
    (qualityCmp_of_nan (.inr hnan)) (qualityCmp_of_nan (.inl hnan))
  refine h (qualityCmp_eq_gt.mpr ?_)
  rw [hweight 1 (by norm_num), hweight 2 (by norm_num)]
  decide +kernel

end EmeraldExchange.Gateway.Releases
