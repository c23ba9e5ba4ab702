import EmeraldExchange.Recommender.Ranker

/-!
# What is owned or vetoed is not recommended

A score takes a recipe, and returns up to as many titles as are asked for. Whatever the tables, the
request and the parameters, these are different titles that the household does not own, reject or
dislike, and none has the key of one that it owns, as the request or the catalog has it titled.

That holds of four recipes. The ranker looks at the keys of the identifiers that the household owns,
so that a title that is owned under a name, without an identifier, is recommended
(`not_excludes_unidentified`), where the other recipes find it by the
names of the request. It holds of the ranker exactly when no title that may be shown has an owned
key (`excludes_iff`).
-/

namespace EmeraldExchange.Recommender

open Ranker (Catalog FromCatalog Numeric Unowned)

structure ScoredItem where
  tmdbId : ℤ
  title : String
  year : Option ℤ
  posterPath : Option String
  overview : Option String
  deriving DecidableEq

def TitleRow.item (t : TitleRow) : ScoredItem :=
  ⟨t.tmdbId, t.title, t.year, t.posterPath, t.overview⟩

/-- **Score with the recipe of a name**, if there is one. -/
def score (name : String) (st : Store) (cats : Kind → Catalog) (s : Scoring) (user : UserContext)
    (n : ℕ) (params : JsonTree) : Option (List TitleRow) :=
  (getRecipe name).map fun r =>
    let p := r.params params
    if r.name = "baseline_cosine" then cosine st s user n p none
    else if r.name = "mmr_diverse" then cosine st s user n p (some (max n (p.size "mmr_input_k")))
    else if r.name = "fused" then Fused.score st s user n p
    else if r.name = "ranker" then Ranker.score st (cats user.kind) s user n p
    else coldStartPool st user n (p.int "min_vote_count")

/-- **The titles that a request is answered with.** -/
def scoreItems (name : String) (st : Store) (cats : Kind → Catalog) (s : Scoring) (sqlNow : ℤ)
    (req : Score) (params : JsonTree) : Option (List ScoredItem) :=
  (score name st cats s (loadUserContext st sqlNow req true) req.n params).map fun rows =>
    (rows.map TitleRow.item).take req.n

/-- **Nothing that the household owns or vetoes**, by identifier or by key. -/
structure Excludes (user : UserContext) (keys : Finset String) (n : ℕ) (items : List ScoredItem) :
    Prop where
  length_le : items.length ≤ n
  nodup : (items.map ScoredItem.tmdbId).Nodup
  library : ∀ i ∈ items, i.tmdbId ∉ user.libraryIds
  rejected : ∀ i ∈ items, i.tmdbId ∉ user.rejectedIds
  disliked : ∀ i ∈ items, i.tmdbId ∉ user.dislikedIds
  key : ∀ i ∈ items, ∀ key, normalizeTitleKey i.title.toList = some key → key ∉ keys

theorem Serves.excludes {user : UserContext} {keys : Finset String} {n : ℕ} {rows : List TitleRow}
    (h : Serves user keys n rows) : Excludes user keys n ((rows.map TitleRow.item).take n) := by
  rw [List.take_of_length_le (by rw [List.length_map]; exact h.length_le)]
  have hhard : ∀ i ∈ rows.map TitleRow.item, i.tmdbId ∉ user.hard := by
    intro i hi
    obtain ⟨t, ht, rfl⟩ := List.mem_map.mp hi
    exact h.hard t ht
  simp only [UserContext.hard, Finset.mem_union, not_or] at hhard
  refine ⟨?_, ?_, fun i hi => (hhard i hi).1.1, fun i hi => (hhard i hi).1.2,
    fun i hi => (hhard i hi).2, fun i hi => ?_⟩
  · rw [List.length_map]
    exact h.length_le
  · rw [List.map_map]
    exact h.nodup
  · obtain ⟨t, ht, rfl⟩ := List.mem_map.mp hi
    exact h.key t ht

variable (st : Store) (cats : Kind → Catalog) (sqlNow : ℤ) (req : Score)

/-- **All recipes but the ranker serve what is vetted**, and the ranker does if no title that it may
show has an owned key. -/
theorem serves_score {user : UserContext} {keys : Finset String}
    (hkeys : keys ⊆ user.libraryTitleKeys) {n : ℕ} (hn : 1 ≤ n) {s : Scoring} {r : Recipe}
    (hr : getRecipe r.name = some r) {params : JsonTree} {rows : List TitleRow}
    (hnumeric : r.name = "ranker" → Numeric s)
    (h : r.name = "ranker" → FromCatalog (cats user.kind) user →
      Unowned st (cats user.kind) user ((r.params params).int "min_vote_count") keys)
    (hrows : score r.name st cats s user n params = some rows) : Serves user keys n rows := by
  have hmono : ∀ {rows}, Serves user user.libraryTitleKeys n rows → Serves user keys n rows :=
    fun hs => ⟨hs.toVetted.mono hkeys, hs.length_le⟩
  rw [score, hr] at hrows
  obtain rfl := Option.some.inj hrows
  dsimp only
  split
  · exact hmono (serves_cosine st s user _ hn none)
  · split
    · exact hmono (serves_cosine st s user _ hn _)
    · split
      · exact hmono (Fused.serves_score st s user _ hn)
      · split
        · next hname =>
          exact Ranker.serves_score st _ user (hnumeric hname) hn _ hkeys (h hname)
        · exact hmono (serves_coldStartPool st user hn _)

theorem getRecipe_of_mem {r : Recipe} (hr : r ∈ registry) : getRecipe r.name = some r := by
  simp only [registry, List.mem_cons, List.not_mem_nil, or_false] at hr
  rcases hr with rfl | rfl | rfl | rfl | rfl
  all_goals rfl

theorem eq_ranker {r : Recipe} (hr : r ∈ registry) (hname : r.name = "ranker") :
    r = ⟨"ranker", Ranker.defaults⟩ := by
  have hget := getRecipe_of_mem hr
  rw [hname] at hget
  exact (Option.some.inj hget).symm

theorem scoreItems_ranker {s : Scoring} {params : JsonTree} {t : TitleRow}
    (hrows : Ranker.score st (cats (loadUserContext st sqlNow req true).kind) s
      (loadUserContext st sqlNow req true) req.n
      ((⟨"ranker", Ranker.defaults⟩ : Recipe).params params) = [t]) (hn : 1 ≤ req.n) :
    scoreItems "ranker" st cats s sqlNow req params = some [t.item] := by
  have hget : getRecipe "ranker" = some ⟨"ranker", Ranker.defaults⟩ := rfl
  rw [scoreItems, score, hget]
  show some (((Ranker.score _ _ _ _ _ _).map _).take _) = _
  rw [hrows, List.take_of_length_le hn]
  rfl

/-- **Nothing that is owned or vetoed is recommended**, whatever the scores and the parameters, of
which the least number of votes is fixed, exactly when the recipe is not the ranker, when the ranker
falls back on what is popular, or when no title that it may show has the key of an owned one. For
the ranker the scores are to be numbers. -/
theorem excludes_iff (hn : 1 ≤ req.n ∧ req.n ≤ 50) {r : Recipe} (hr : r ∈ registry)
    (params : JsonTree) :
    let user := loadUserContext st sqlNow req true
    (∀ params' s, params'.get "min_vote_count" = params.get "min_vote_count" →
      (r.name = "ranker" → Numeric s) →
      ∀ items, scoreItems r.name st cats s sqlNow req params' = some items →
        Excludes user (st.ownedKeys req) req.n items) ↔
    (r.name = "ranker" → FromCatalog (cats user.kind) user →
      Unowned st (cats user.kind) user ((r.params params).int "min_vote_count")
        (st.ownedKeys req)) := by
  intro user
  have hget := getRecipe_of_mem hr
  constructor
  · rintro h hname hcatalog row hrow t ht key hkey
    obtain rfl := eq_ranker hr hname
    -- the same number of votes, a pool of one title and a single interest
    let votes := (params.get "min_vote_count").map fun v => ("min_vote_count", v)
    let params' : JsonTree :=
      .obj (votes.toList ++ [("pool_size", .int 1), ("interest_clusters", .int 1)])
    have hvotes : params'.get "min_vote_count" = params.get "min_vote_count" := by
      show ((votes.toList ++ _).reverse.find? _).map _ = _
      cases hv : params.get "min_vote_count" with
      | none => simp [votes, hv]
      | some v => simp [votes, hv]
    have hpool : params'.get "pool_size" = some (.int 1) := by simp [params', JsonTree.get]
    have hinterests : params'.get "interest_clusters" = some (.int 1) := by
      simp [params', JsonTree.get]
    rw [← P.int_congr hr hvotes] at hrow
    have hrows : Ranker.score st (cats user.kind) (Ranker.favouring row.id) user req.n
        ((⟨"ranker", Ranker.defaults⟩ : Recipe).params params') = [t] :=
      Ranker.score_favouring st _ user hcatalog hrow ht
        (Ranker.poolSize_eq_one hpool) (Ranker.interestClusters_eq_one hinterests) hn.1
    have hitems := scoreItems_ranker st cats sqlNow req hrows hn.1
    have hexcl := h params' _ hvotes (fun _ _ _ => rfl) _ hitems
    exact hexcl.key _ (List.mem_singleton_self _) key hkey
  · rintro h params' s hvotes hnumeric items hitems
    obtain ⟨rows, hrows, rfl⟩ := Option.map_eq_some_iff.mp hitems
    refine (serves_score st cats (ownedKeys_subset st sqlNow req true) hn.1 hget hnumeric ?_
      hrows).excludes
    rw [P.int_congr hr hvotes]
    exact h

/-! ### A title without an identifier -/

def films : List TitleRow :=
  [⟨1, "Alien", some 1979, none, none, 9, 900, [878], true⟩,
    ⟨2, "Dune", some 2021, none, none, 8, 800, [878], true⟩]

/-- Both are in the catalog, and have embeddings. -/
def filmStore : Store where
  titles := fun
    | .movie => ⟨films, by decide⟩
    | .tv => ⟨[], List.nodup_nil⟩
  features := fun
    | .movie => {1, 2}
    | .tv => ∅
  titleVec := ∅
  libraryItems := fun _ => ∅
  householdRejections := fun _ => ∅
  events := .empty

/-- Who owns the second, by name, and likes the first. -/
def ownsByName : Score where
  sub := "local:1"
  kind := .movie
  n := 20
  excludeRecentlyShown := true
  library := some [⟨none, some "Dune"⟩]
  feedback := some [(1, "like")]
  householdRejections := some []

def filmCatalog (kind : Kind) : Catalog :=
  Ranker.buildCatalog filmStore kind (fun _ => 0) fun _ => false

theorem eligible_filmCatalog : Ranker.eligible (loadUserContext filmStore 0 ownsByName true)
    (filmCatalog .movie) 50 = [.of (fun _ => 0) (fun _ => false) (films[1])] := by
  decide

/-- **A film that is owned by name is recommended**, whatever the scores, with the ranker and its
defaults. -/
theorem not_excludes_unidentified : ¬ ∀ s items,
    scoreItems "ranker" filmStore filmCatalog s 0 ownsByName (.obj []) = some items →
      Excludes (loadUserContext filmStore 0 ownsByName true) (filmStore.ownedKeys ownsByName)
        ownsByName.n items := by
  intro h
  have hvotes : ((⟨"ranker", Ranker.defaults⟩ : Recipe).params (.obj [])).int "min_vote_count" =
      50 := Ranker.minVoteCount_default rfl
  have hcatalog : FromCatalog (filmCatalog .movie) (loadUserContext filmStore 0 ownsByName true) :=
    ⟨by decide, by decide⟩
  have hrows := Ranker.score_of_candidates filmStore (filmCatalog .movie)
    (loadUserContext filmStore 0 ownsByName true) (s := Ranker.favouring 2) hcatalog
    (by rw [hvotes, eligible_filmCatalog]; exact Ranker.candidates_singleton _ _ _ _ _)
    (t := films[1]) rfl (n := ownsByName.n) (by decide)
  have hitems := scoreItems_ranker filmStore filmCatalog 0 ownsByName hrows (by decide)
  exact (h _ _ hitems).key _ (List.mem_singleton_self _) "dune" (by decide) (by decide)

theorem excludes_ownsByName : (1 ≤ ownsByName.n ∧ ownsByName.n ≤ 50) ∧ ∀ params' s,
    params'.get "min_vote_count" = (JsonTree.obj []).get "min_vote_count" →
    ("baseline_cosine" = "ranker" → Numeric s) →
    ∀ items, scoreItems "baseline_cosine" filmStore filmCatalog s 0 ownsByName params' =
      some items → Excludes (loadUserContext filmStore 0 ownsByName true)
        (filmStore.ownedKeys ownsByName) ownsByName.n items :=
  ⟨by decide, (excludes_iff filmStore filmCatalog 0 ownsByName (by decide)
    (r := ⟨"baseline_cosine", baselineCosine⟩) List.mem_cons_self (.obj [])).mpr
      fun h => absurd h (by decide)⟩

end EmeraldExchange.Recommender
