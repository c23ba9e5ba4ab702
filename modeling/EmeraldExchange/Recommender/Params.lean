import EmeraldExchange.Lib.Binary64
import EmeraldExchange.Lib.JsonTree

/-!
# Recipes and their parameters

A recipe has defaults, which give its parameters their names and types; the active configuration may
set them, within bounds, and what it sets of another type or beyond is dropped or clamped. What a
recipe reads of a parameter depends on that parameter alone
(`P.num_congr`).
-/

namespace EmeraldExchange.Recommender

/-- A default of a recipe, whose type is that of the parameter. -/
inductive Def
  | int (z : ℤ)
  | float (x : Binary64)

structure Recipe where
  name : String
  defaults : List (String × Def)

def baselineCosine : List (String × Def) :=
  [("pool_size", .int 500), ("negative_weight", .float (.ofRat 0.30)),
    ("popularity_weight", .float (.ofRat 0.05)), ("min_vote_count", .int 50),
    ("personalized_threshold", .float (.ofRat 0.45))]

def mmrDiverse : List (String × Def) :=
  [("pool_size", .int 800), ("negative_weight", .float (.ofRat 0.30)),
    ("popularity_weight", .float (.ofRat 0.05)), ("min_vote_count", .int 50),
    ("personalized_threshold", .float (.ofRat 0.45)), ("mmr_lambda", .float (.ofRat 0.70)),
    ("mmr_input_k", .int 200)]

def coldStartTrending : List (String × Def) := [("min_vote_count", .int 100)]

/-- The defaults of `fused`. -/
def Fused.defaults : List (String × Def) :=
  [("pool_size", .int 800), ("negative_weight", .float (.ofRat 0.30)),
    ("popularity_weight", .float (.ofRat 0.05)), ("min_vote_count", .int 50),
    ("personalized_threshold", .float (.ofRat 0.45)), ("content_weight", .float (.ofRat 1.0)),
    ("cast_weight", .float (.ofRat 0.7)), ("crew_weight", .float (.ofRat 0.5)),
    ("cast_topn", .int 10), ("kids_genre_cap", .float (.ofRat 0.35))]

/-- The defaults of `ranker`. -/
def Ranker.defaults : List (String × Def) :=
  [("pool_size", .int 600), ("interest_clusters", .int 12), ("min_vote_count", .int 50),
    ("ridge", .float (.ofRat 10.0)), ("calibration", .float (.ofRat 0.3)),
    ("redundancy", .float (.ofRat 0.1)), ("fresh_share", .float (.ofRat 0.25)),
    ("kids_genre_cap", .float (.ofRat 0.35)), ("personalized_threshold", .float (.ofRat 0.55))]

/-- **The recipes.** -/
def registry : List Recipe :=
  [⟨"baseline_cosine", baselineCosine⟩, ⟨"mmr_diverse", mmrDiverse⟩,
    ⟨"cold_start_trending", coldStartTrending⟩, ⟨"fused", Fused.defaults⟩,
    ⟨"ranker", Ranker.defaults⟩]

def getRecipe (name : String) : Option Recipe := registry.find? fun r => r.name = name

/-! ### Parameters -/

inductive Param
  | int (z : ℤ)
  | float (x : Binary64)

def modelParamBounds : List (String × Binary64 × Binary64) :=
  [("pool_size", .ofRat 1.0, .ofRat 5000.0), ("mmr_input_k", .ofRat 1.0, .ofRat 1000.0),
    ("min_vote_count", .ofRat 0.0, .ofRat 100000.0), ("negative_weight", .ofRat 0.0, .ofRat 5.0),
    ("popularity_weight", .ofRat 0.0, .ofRat 5.0),
    ("personalized_threshold", .ofRat (-1.0), .ofRat 1.0), ("mmr_lambda", .ofRat 0.0, .ofRat 1.0),
    ("kids_genre_cap", .ofRat 0.0, .ofRat 1.0), ("interest_clusters", .ofRat 1.0, .ofRat 64.0),
    ("ridge", .ofRat 0.01, .ofRat 10000.0), ("calibration", .ofRat 0.0, .ofRat 1.0),
    ("redundancy", .ofRat 0.0, .ofRat 1.0), ("fresh_share", .ofRat 0.0, .ofRat 1.0)]

def clamp (lo hi x : Binary64) : Binary64 := if x.lt lo then lo else if hi.lt x then hi else x

/-- `round_ties_even` -/
def roundTiesEven : Binary64 → Binary64
  | .finite q => .finite (Binary64.roundEven q)
  | x => x

def finiteNumber (v : JsonTree) : Option Binary64 :=
  (v.asNum.map Binary64.ofRat).filter fun x => x matches .finite _

/-- A parameter from its value, if that is a finite number: rounded, if it is to be an integer, and
clamped. -/
def sanitizeParam (key : String) (default : Def) (value : JsonTree) : Option Param :=
  let bounds := modelParamBounds.lookup key
  (finiteNumber value).map fun x =>
    match default with
    | .int _ =>
      let (lo, hi) := bounds.getD (.ofRat 1.0, .ofRat 100000.0)
      .int (clamp lo hi (roundTiesEven x)).toI64
    | .float _ =>
      let (lo, hi) := bounds.getD (.ofRat (-1000000), .ofRat 1000000)
      .float (clamp lo hi x)

abbrev Params := List (String × Param)

/-- **Keep the parameters of the recipe**, cleaned. -/
def sanitizeModelParams (defaults : List (String × Def)) (params : JsonTree) : Params :=
  defaults.filterMap fun d =>
    (params.get d.1).bind fun v => (sanitizeParam d.1 d.2 v).map (d.1, ·)

structure P where
  defaults : List (String × Def)
  params : Params

namespace P

def num (p : P) (key : String) : Binary64 :=
  match p.params.lookup key with
  | some (.int z) => .ofRat z
  | some (.float x) => x
  | none =>
    match p.defaults.lookup key with
    | some (.int z) => .ofRat z
    | some (.float x) => x
    | none => .nan -- every parameter that a recipe reads has a default

def int (p : P) (key : String) : ℤ := (p.num key).toI64

def size (p : P) (key : String) : ℕ := (p.int key).toNat

end P

/-- The parameters that a recipe reads when a configuration is active. -/
def Recipe.params (r : Recipe) (raw : JsonTree) : P :=
  ⟨r.defaults, sanitizeModelParams r.defaults raw⟩

/-! ### What is read -/

theorem lookup_sanitizeModelParams (key : String) (raw : JsonTree) :
    ∀ {defaults : List (String × Def)}, (defaults.map Prod.fst).Nodup →
    (sanitizeModelParams defaults raw).lookup key =
      (defaults.lookup key).bind fun d => (raw.get key).bind (sanitizeParam key d)
  | [], _ => rfl
  | (k, d) :: ds, hnodup => by
    obtain ⟨hk, hds⟩ := List.nodup_cons.mp hnodup
    have ih := lookup_sanitizeModelParams key raw hds
    rw [sanitizeModelParams] at ih ⊢
    rw [List.filterMap_cons]
    rcases eq_or_ne key k with rfl | hne
    · have hnone : ds.lookup key = none := by
        rw [List.lookup_eq_none_iff]
        rintro ⟨k', d'⟩ hmem
        have hne : key ≠ k' := fun h => hk (List.mem_map.mpr ⟨_, hmem, h.symm⟩)
        simpa using hne
      rw [hnone] at ih
      cases hv : (raw.get key).bind fun v => (sanitizeParam key d v).map (key, ·) with
      | none =>
        have hclean : (raw.get key).bind (sanitizeParam key d) = none := by
          cases hget : raw.get key with
          | none => rfl
          | some v => simpa [hget] using hv
        simpa [hclean] using ih
      | some e =>
        obtain ⟨v, hget, hmap⟩ := Option.bind_eq_some_iff.mp hv
        obtain ⟨x, hx, rfl⟩ := Option.map_eq_some_iff.mp hmap
        simp [hget, hx]
    · have hbeq : (key == k) = false := by simpa using hne
      cases hv : (raw.get k).bind fun v => (sanitizeParam k d v).map (k, ·) with
      | none => simpa [List.lookup_cons, hbeq] using ih
      | some e =>
        obtain ⟨v, -, hmap⟩ := Option.bind_eq_some_iff.mp hv
        obtain ⟨x, -, rfl⟩ := Option.map_eq_some_iff.mp hmap
        simpa [List.lookup_cons, hbeq] using ih

theorem nodup_defaults {r : Recipe} (hr : r ∈ registry) : (r.defaults.map Prod.fst).Nodup := by
  have hall : registry.all (fun r => decide (r.defaults.map Prod.fst).Nodup) = true := by decide
  exact of_decide_eq_true (List.all_eq_true.mp hall r hr)

/-- **A parameter is read from its own value.** -/
theorem P.num_congr {r : Recipe} (hr : r ∈ registry) {raw raw' : JsonTree} {key : String}
    (h : raw.get key = raw'.get key) : (r.params raw).num key = (r.params raw').num key := by
  have hlook : (r.params raw).params.lookup key = (r.params raw').params.lookup key := by
    rw [Recipe.params, Recipe.params, lookup_sanitizeModelParams key raw (nodup_defaults hr),
      lookup_sanitizeModelParams key raw' (nodup_defaults hr), h]
  rw [num, num, hlook]
  rfl

theorem P.int_congr {r : Recipe} (hr : r ∈ registry) {raw raw' : JsonTree} {key : String}
    (h : raw.get key = raw'.get key) : (r.params raw).int key = (r.params raw').int key := by
  rw [int, int, num_congr hr h]

theorem toI64_ofRat {z : ℤ} (hz : z.natAbs ≤ 2 ^ 53) : (Binary64.ofRat z).toI64 = z := by
  rw [Binary64.ofRat_intCast hz, Binary64.toI64]
  have hnum : (z : ℚ).num.tdiv ((z : ℚ).den : ℤ) = z := by simp
  rw [hnum]
  omega

/-- **A size of one is a size of one**, where one is within the bounds. -/
theorem size_eq_one {r : Recipe} (hr : r ∈ registry) {raw : JsonTree} {key : String} {z : ℤ}
    (hdefault : r.defaults.lookup key = some (.int z)) {hi : Binary64}
    (hbounds : modelParamBounds.lookup key = some (.ofRat 1.0, hi))
    (hhi : hi.lt (.finite ((1 : ℤ) : ℚ)) = false) (hraw : raw.get key = some (.int 1)) :
    (r.params raw).size key = 1 := by
  have hone : Binary64.ofRat ((1 : ℤ) : ℚ) = .finite ((1 : ℤ) : ℚ) :=
    Binary64.ofRat_intCast (by decide)
  have hlo : Binary64.ofRat 1.0 = .finite ((1 : ℤ) : ℚ) := by
    rw [← hone]
    norm_num
  have hfinite : finiteNumber (.int 1) = some (.finite ((1 : ℤ) : ℚ)) := by
    show (some (Binary64.ofRat ((1 : ℤ) : ℚ))).filter _ = _
    rw [hone]
    rfl
  have hclean : sanitizeParam key (.int z) (.int 1) = some (.int 1) := by
    have hround : roundTiesEven (.finite ((1 : ℤ) : ℚ)) = .finite ((1 : ℤ) : ℚ) := by
      rw [roundTiesEven, Binary64.roundEven_intCast]
    have hwithin : clamp (.ofRat 1.0) hi (.finite ((1 : ℤ) : ℚ)) = .finite ((1 : ℤ) : ℚ) := by
      rw [clamp, hlo, Binary64.lt, if_neg (by simp), hhi, if_neg (by simp)]
    rw [sanitizeParam, hfinite, hbounds]
    dsimp only [Option.map_some, Option.getD_some]
    rw [hround, hwithin, ← hone, toI64_ofRat (by decide)]
  have hlook : (r.params raw).params.lookup key = some (.int 1) := by
    rw [Recipe.params, lookup_sanitizeModelParams key raw (nodup_defaults hr), hdefault, hraw]
    exact hclean
  rw [P.size, P.int, P.num, hlook]
  dsimp only
  rw [toI64_ofRat (by decide)]
  rfl

theorem lt_one_of_le {q : ℚ} {z : ℤ} (hq : q = z) (hz : 1 ≤ z) (hsmall : z.natAbs ≤ 2 ^ 53) :
    (Binary64.ofRat q).lt (.finite ((1 : ℤ) : ℚ)) = false := by
  have hle : ¬ ((z : ℚ) < ((1 : ℤ) : ℚ)) := by exact_mod_cast not_lt.mpr hz
  rw [hq, Binary64.ofRat_intCast hsmall, Binary64.lt]
  exact decide_eq_false hle

theorem Ranker.poolSize_eq_one {raw : JsonTree} (hraw : raw.get "pool_size" = some (.int 1)) :
    ((⟨"ranker", defaults⟩ : Recipe).params raw).size "pool_size" = 1 := by
  have hbounds : modelParamBounds.lookup "pool_size" = some (.ofRat 1.0, .ofRat 5000.0) := rfl
  have hdefault : defaults.lookup "pool_size" = some (.int 600) := rfl
  have hr : (⟨"ranker", defaults⟩ : Recipe) ∈ registry := by simp [registry]
  exact size_eq_one hr hdefault hbounds (lt_one_of_le (z := 5000) (by norm_num) (by decide)
    (by decide)) hraw

theorem Ranker.interestClusters_eq_one {raw : JsonTree}
    (hraw : raw.get "interest_clusters" = some (.int 1)) :
    ((⟨"ranker", defaults⟩ : Recipe).params raw).size "interest_clusters" = 1 := by
  have hbounds : modelParamBounds.lookup "interest_clusters" = some (.ofRat 1.0, .ofRat 64.0) := rfl
  have hdefault : defaults.lookup "interest_clusters" = some (.int 12) := rfl
  have hr : (⟨"ranker", defaults⟩ : Recipe) ∈ registry := by simp [registry]
  exact size_eq_one hr hdefault hbounds (lt_one_of_le (z := 64) (by norm_num) (by decide)
    (by decide)) hraw

theorem Ranker.minVoteCount_default {raw : JsonTree} (hraw : raw.get "min_vote_count" = none) :
    ((⟨"ranker", defaults⟩ : Recipe).params raw).int "min_vote_count" = 50 := by
  have hr : (⟨"ranker", defaults⟩ : Recipe) ∈ registry := by simp [registry]
  have hdefault : defaults.lookup "min_vote_count" = some (.int 50) := rfl
  have hlook : ((⟨"ranker", defaults⟩ : Recipe).params raw).params.lookup "min_vote_count" =
      none := by
    rw [Recipe.params, lookup_sanitizeModelParams _ raw (nodup_defaults hr), hdefault, hraw]
    rfl
  rw [P.int, P.num, hlook]
  dsimp only [Recipe.params]
  rw [hdefault]
  exact toI64_ofRat (by decide)

end EmeraldExchange.Recommender
