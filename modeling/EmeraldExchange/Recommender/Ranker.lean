import EmeraldExchange.Recommender.Recipes

/-!
# The ranker

The fifth recipe has the catalog of a kind in memory, takes the titles of it that a household may be
shown, finds candidates among these in three ways, and puts the best of them on a slate one after
the other. A catalog may be older than the tables; the titles that are returned are read from them.

Which titles may be shown is decided here once more, and by the catalog alone: a title is owned when
it has the key that an identifier of the library has in the catalog. The names that the request
gives are not looked at. So what is returned is vetted when no title that may be shown has the key
of an owned one (`serves_score`), and only then: any title that
may be shown is returned for some scores and some parameters
(`score_favouring`).

A slate takes the maximum of an objective that no title attains which is not left; where the
objective is not a number that fails, and a title comes again and again
(`slate_of_nan`).
-/

namespace EmeraldExchange.Recommender.Ranker

open Greedy

/-! ### The catalog -/

structure CatalogRow where
  id : ℤ
  available : Bool
  voteCount : ℤ
  key : Option String
  genres : List ℤ
  /-- Of `raw_json`; zero is none. -/
  collection : ℤ
  /-- It is of this year or the last. -/
  fresh : Bool
  deriving DecidableEq

/-- **A catalog**, each title with its own identifier. -/
structure Catalog where
  rows : List CatalogRow
  nodup : (rows.map CatalogRow.id).Nodup

def CatalogRow.of (collection : ℤ → ℤ) (fresh : ℤ → Bool) (r : TitleRow) : CatalogRow where
  id := r.tmdbId
  available := r.available
  voteCount := r.voteCount
  key := normalizeTitleKey r.title.toList
  genres := r.genreIds
  collection := collection r.tmdbId
  fresh := fresh r.tmdbId

/-- **Build the catalog of a kind**: the titles that have an embedding. -/
def buildCatalog (st : Store) (kind : Kind) (collection : ℤ → ℤ) (fresh : ℤ → Bool) : Catalog where
  rows := ((st.titles kind).rows.filter fun r => r.tmdbId ∈ st.features kind).map
    (.of collection fresh)
  nodup := by
    rw [List.map_map]
    exact (st.titles kind).nodup.sublist (List.filter_sublist.map _)

/-! ### What may be shown -/

/-- **The titles that may be shown**: available, with enough votes, not owned, rejected, disliked,
shown of late or liked, and not with the key of an owned title. -/
def eligible (user : UserContext) (cat : Catalog) (minVotes : ℤ) : List CatalogRow :=
  let owned := (cat.rows.filter fun r => r.id ∈ user.libraryIds).filterMap CatalogRow.key
  cat.rows.filter fun r =>
    r.available && minVotes ≤ r.voteCount &&
      r.id ∉ user.libraryIds && r.id ∉ user.rejectedIds && r.id ∉ user.dislikedIds &&
      r.id ∉ user.recentlyShownIds && r.id ∉ user.likedIds && !r.key.any fun k => k ∈ owned

/-- What is owned or liked, `refs.pos`. -/
def positives (user : UserContext) (cat : Catalog) : List CatalogRow :=
  cat.rows.filter fun r => r.id ∈ user.libraryIds ∪ user.likedIds

/-! ### The candidates -/

def topK (key : ℤ → ℤ) (k : ℕ) (rows : List CatalogRow) : List CatalogRow :=
  (sortDesc (fun r => key r.id) rows).take k

/-- **The candidates**, in the order of the catalog: the best by the cheap score, the nearest to
each interest, and the best of the new ones. -/
def candidates (s : Scoring) (elig : List CatalogRow) (nPos pool kMax : ℕ) : List CatalogRow :=
  let nCheap := min elig.length (pool / 2)
  let clusters := max (min (min kMax (max (nPos / 25) 1)) nPos) 1
  let fresh := elig.filter CatalogRow.fresh
  let picked := topK s.cheap nCheap elig ++
    (List.range clusters).flatMap (fun c =>
      topK (s.interest c) (min elig.length (max (s.quota c (pool - nCheap)) 1)) elig) ++
    topK s.cheap (min fresh.length (pool / 8)) fresh
  elig.filter fun r => r ∈ picked

/-! ### The slate -/

def slateInput : ℕ := 150

def freshInput : ℕ := 40

/-- What the slate is chosen from: the best, and the best of the new ones. -/
def slateInputs (s : Scoring) (rows : List CatalogRow) : List CatalogRow :=
  let byScore := sortDesc (fun r => s.z r.id) rows
  let top := byScore.take slateInput
  top ++ ((byScore.filter CatalogRow.fresh).take freshInput).filter fun r => r ∉ top

/-- Only what passes a test, unless nothing does. -/
def narrow (allowed : List CatalogRow) (keep : CatalogRow → Bool) : List CatalogRow :=
  if allowed.any keep then allowed.filter keep else allowed

def CatalogRow.kids (r : CatalogRow) : Bool := Fused.isKids r.genres

def allowedNext (kidsCap freshShare : Binary64) (chosen left : List CatalogRow) :
    List CatalogRow :=
  let seen := chosen.map CatalogRow.collection
  let nFresh := chosen.countP CatalogRow.fresh
  let allowed := narrow left fun r => !(r.collection ≠ 0 && r.collection ∈ seen)
  let allowed :=
    if Fused.overCap kidsCap (chosen.countP CatalogRow.kids) chosen.length then
      narrow allowed fun r => !r.kids
    else allowed
  if (Binary64.ofRat nFresh).lt (freshShare.mul (.ofRat (chosen.length + 1))).trunc then
    narrow allowed CatalogRow.fresh
  else allowed

/-- The next on the slate: where the objective is greatest, which is negative infinity for what may
not come. -/
def next (s : Scoring) (kidsCap freshShare : Binary64) (inputs chosen left : List CatalogRow) :
    Option CatalogRow :=
  if left = [] then none
  else
    let allowed := allowedNext kidsCap freshShare chosen left
    let objective := fun r : CatalogRow =>
      if r ∈ allowed then s.objective (chosen.map CatalogRow.id) r.id else .infinite true
    inputs[argmax Binary64.lt (inputs.map objective)]?

/-- **The slate.** -/
def slate (s : Scoring) (kidsCap freshShare : Binary64) (inputs : List CatalogRow) (n : ℕ) :
    List CatalogRow :=
  picks (next s kidsCap freshShare inputs) n [] inputs

/-- **The recipe `ranker`.** -/
def score (st : Store) (cat : Catalog) (s : Scoring) (user : UserContext) (n : ℕ) (p : P) :
    List TitleRow :=
  let minVotes := p.int "min_vote_count"
  if user.hasPositives && positives user cat ≠ [] then
    let rows := candidates s (eligible user cat minVotes) (positives user cat).length
      (p.size "pool_size") (p.size "interest_clusters")
    let picked := slate s (p.num "kids_genre_cap") (p.num "fresh_share") (slateInputs s rows) n
    picked.filterMap fun c => (st.titles user.kind).get c.id
  else coldStartPool st user n minVotes

/-! ### Nothing comes twice -/

/-- **The objective is a number**, as it is as long as the embeddings of the catalog are finite. -/
def Numeric (s : Scoring) : Prop :=
  ∀ chosen id, Binary64.lt (.infinite true) (s.objective chosen id) = true

theorem narrow_ne_nil {allowed : List CatalogRow} (h : allowed ≠ []) (keep : CatalogRow → Bool) :
    narrow allowed keep ≠ [] := by
  rw [narrow]
  split
  · next hany =>
    obtain ⟨r, hr, hkeep⟩ := List.any_eq_true.mp hany
    exact List.ne_nil_of_mem (List.mem_filter.mpr ⟨hr, hkeep⟩)
  · exact h

theorem narrow_subset (allowed : List CatalogRow) (keep : CatalogRow → Bool) :
    narrow allowed keep ⊆ allowed := by
  rw [narrow]
  split
  · exact List.filter_subset_self ..
  · exact List.Subset.refl _

variable (kidsCap freshShare : Binary64)

/-- **Something of what is left may come next.** -/
theorem allowedNext_spec (chosen : List CatalogRow) {left : List CatalogRow} (h : left ≠ []) :
    allowedNext kidsCap freshShare chosen left ≠ [] ∧
      allowedNext kidsCap freshShare chosen left ⊆ left := by
  have hstep : ∀ {allowed : List CatalogRow} (full : Bool) (keep : CatalogRow → Bool),
      (allowed ≠ [] ∧ allowed ⊆ left) →
      ((if full then narrow allowed keep else allowed) ≠ [] ∧
        (if full then narrow allowed keep else allowed) ⊆ left) := by
    rintro allowed (_ | _) keep ⟨hne, hsub⟩
    · exact ⟨hne, hsub⟩
    · exact ⟨narrow_ne_nil hne keep, List.Subset.trans (narrow_subset allowed keep) hsub⟩
  rw [allowedNext]
  exact hstep _ _ (hstep _ _ (hstep true _ ⟨h, List.Subset.refl _⟩))

/-- **What comes next is left**, if the objective is a number. -/
theorem proper_next {s : Scoring} (hs : Numeric s) (inputs : List CatalogRow) :
    Proper inputs (next s kidsCap freshShare inputs) := by
  intro chosen left a hleft hnext
  rw [next] at hnext
  split at hnext
  · cases hnext
  · next hne =>
    obtain ⟨hallowed, hsub⟩ := allowedNext_spec kidsCap freshShare chosen hne
    dsimp only at hnext
    set allowed := allowedNext kidsCap freshShare chosen left
    set objective := fun r : CatalogRow =>
      if r ∈ allowed then s.objective (chosen.map CatalogRow.id) r.id else .infinite true
      with hobjective
    have hall : ∀ x ∈ inputs.map objective,
        x = .infinite true ∨ Binary64.lt (.infinite true) x = true := by
      rintro x hx
      obtain ⟨r, -, rfl⟩ := List.mem_map.mp hx
      rw [hobjective]
      dsimp only
      split
      · exact .inr (hs _ _)
      · exact .inl rfl
    have hex : ∃ x ∈ inputs.map objective, Binary64.lt (.infinite true) x = true := by
      obtain ⟨r, hr⟩ := List.exists_mem_of_ne_nil _ hallowed
      refine ⟨objective r, List.mem_map_of_mem (hleft (hsub hr)), ?_⟩
      rw [hobjective]
      dsimp only
      rw [if_pos hr]
      exact hs _ _
    obtain ⟨y, hy, hlt⟩ := exceeds_argmax Binary64.lt_infinite_true hall hex
    rw [List.getElem?_map, hnext, Option.map_some] at hy
    obtain rfl := Option.some.inj hy
    by_contra hnot
    rw [hobjective] at hlt
    dsimp only at hlt
    rw [if_neg fun h => hnot (hsub h)] at hlt
    cases hlt

theorem next_ne_none {s : Scoring} {inputs chosen left : List CatalogRow} (hne : left ≠ [])
    (hinputs : inputs ≠ []) : next s kidsCap freshShare inputs chosen left ≠ none := by
  rw [next, if_neg hne]
  dsimp only
  rw [ne_eq, List.getElem?_eq_none_iff, not_le]
  -- the position of a maximum is one, whatever the values are
  exact (argmax_lt (mt List.map_eq_nil_iff.mp hinputs)).trans_eq (List.length_map _)

/-- **The slate is as long as asked for**, or as there are titles to choose from. -/
theorem length_slate {s : Scoring} (hs : Numeric s) (inputs : List CatalogRow) (n : ℕ) :
    (slate s kidsCap freshShare inputs n).length = min n inputs.length := by
  have hproper := proper_next kidsCap freshShare hs inputs
  rw [slate, length_picks hproper ?_ (List.Subset.refl _), List.length_nil, Nat.zero_add]
  intro chosen left hne hleft
  refine next_ne_none kidsCap freshShare hne fun hnil => hne ?_
  rw [hnil] at hleft
  exact List.subset_nil.mp hleft

/-- **Where the objective is never a number the first title comes every time**, unless it is the
only one. -/
theorem slate_of_nan {s : Scoring} (hs : ∀ chosen id, s.objective chosen id = .nan)
    {row : CatalogRow} {rest : List CatalogRow} (hnew : row ∉ rest) (hrest : rest ≠ []) (n : ℕ) :
    slate s kidsCap freshShare (row :: rest) n = List.replicate n row := by
  have hnext : ∀ chosen left, left ≠ [] →
      next s kidsCap freshShare (row :: rest) chosen left = some row := by
    intro chosen left hleft
    have hzero : ∀ f : CatalogRow → Binary64, (∀ r, f r = .nan ∨ f r = .infinite true) →
        argmax Binary64.lt ((row :: rest).map f) = 0 := by
      intro f hf
      refine argmax_eq_zero fun x hx y hy => ?_
      obtain ⟨a, -, rfl⟩ := List.mem_map.mp hx
      obtain ⟨b, -, rfl⟩ := List.mem_map.mp hy
      rcases hf a with ha | ha <;> rcases hf b with hb | hb <;> rw [ha, hb] <;> rfl
    rw [next, if_neg hleft]
    dsimp only
    rw [hzero]
    · rfl
    · intro r
      split
      · exact .inl (hs _ _)
      · exact .inr rfl
  -- from the second time on it is not left any more, and nothing is taken away
  have hpicks : ∀ k chosen, picks (next s kidsCap freshShare (row :: rest)) k chosen rest =
      chosen ++ List.replicate k row := by
    intro k
    induction k with
    | zero => exact fun chosen => (List.append_nil chosen).symm
    | succ k ih =>
      intro chosen
      rw [picks, hnext chosen rest hrest]
      dsimp only
      rw [List.erase_of_not_mem hnew, ih, List.append_assoc]
      rfl
  rcases n with _ | n
  · rfl
  · rw [slate, picks, hnext [] _ (List.cons_ne_nil _ _)]
    dsimp only
    rw [List.erase_cons_head, hpicks]
    rfl

theorem slate_of_nan_twoTitles :
    slate ⟨fun _ => 0, fun _ => 0, fun _ => true, fun _ _ => .nan, fun _ => 0, fun _ => 0,
      fun _ _ => 0, fun _ _ => 0, fun _ => 0, fun _ _ => .nan⟩ .nan .nan
      [⟨1, true, 9, none, [], 0, false⟩, ⟨2, true, 9, none, [], 0, false⟩] 3 =
      List.replicate 3 ⟨1, true, 9, none, [], 0, false⟩ :=
  slate_of_nan _ _ (fun _ _ => rfl) (by decide) (List.cons_ne_nil _ _) 3

/-! ### What is returned -/

variable (st : Store) (cat : Catalog) (s : Scoring) (user : UserContext)

theorem slateInputs_spec {rows : List CatalogRow} (h : rows.Nodup) :
    (slateInputs s rows).Nodup ∧ slateInputs s rows ⊆ rows := by
  have hperm := perm_sortDesc (fun r : CatalogRow => s.z r.id) rows
  have hsorted := hperm.nodup_iff.mpr h
  have hfresh : ((sortDesc (fun r : CatalogRow => s.z r.id) rows).filter CatalogRow.fresh).Nodup :=
    hsorted.filter _
  rw [slateInputs]
  constructor
  · refine List.Nodup.append (hsorted.sublist (List.take_sublist _ _))
      ((hfresh.sublist (List.take_sublist _ _)).filter _) ?_
    intro r htop hrest
    simpa [htop] using (List.mem_filter.mp hrest).2
  · intro r hr
    rcases List.mem_append.mp hr with hr | hr
    · exact hperm.mem_iff.mp (List.mem_of_mem_take hr)
    · have hr := List.mem_of_mem_take (List.mem_of_mem_filter hr)
      exact hperm.mem_iff.mp (List.mem_of_mem_filter hr)

/-- **The slate has titles that may be shown**, each once and at most `n`. -/
theorem slate_spec {s : Scoring} (hs : Numeric s) {rows : List CatalogRow} (h : rows.Nodup)
    (n : ℕ) :
    (slate s kidsCap freshShare (slateInputs s rows) n).Nodup ∧
      slate s kidsCap freshShare (slateInputs s rows) n ⊆ rows ∧
      (slate s kidsCap freshShare (slateInputs s rows) n).length ≤ n := by
  obtain ⟨hnodup, hsub⟩ := slateInputs_spec s h
  have hproper := proper_next kidsCap freshShare hs (slateInputs s rows)
  rw [slate]
  refine ⟨nodup_picks hproper (List.Subset.refl _) hnodup, fun r hr => ?_, ?_⟩
  · exact hsub (mem_of_mem_picks hproper (List.Subset.refl _) r hr)
  · rw [← slate, length_slate kidsCap freshShare hs]
    exact Nat.min_le_left ..

/-- **No title that may be shown has a key of some**, as it is titled now. -/
def Unowned (minVotes : ℤ) (keys : Finset String) : Prop :=
  ∀ row ∈ eligible user cat minVotes, ∀ t, (st.titles user.kind).get row.id = some t →
    ∀ key, normalizeTitleKey t.title.toList = some key → key ∉ keys

/-- The household is scored from the catalog, and not by popularity. -/
def FromCatalog : Prop := user.hasPositives = true ∧ positives user cat ≠ []

theorem nodup_eligible (minVotes : ℤ) : (eligible user cat minVotes).Nodup :=
  (cat.nodup.of_map _).filter _

theorem not_hard_of_eligible {minVotes : ℤ} {row : CatalogRow}
    (h : row ∈ eligible user cat minVotes) : row.id ∉ user.hard := by
  have hpass := (List.mem_filter.mp h).2
  simp only [Bool.and_eq_true, decide_eq_true_eq] at hpass
  rw [UserContext.hard, Finset.mem_union, Finset.mem_union]
  tauto

/-- **What the ranker returns is vetted**, if no title that may be shown has the key of an owned
one. -/
theorem serves_score {s : Scoring} (hs : Numeric s) {n : ℕ} (hn : 1 ≤ n) (p : P)
    {keys : Finset String} (hkeys : keys ⊆ user.libraryTitleKeys)
    (h : FromCatalog cat user → Unowned st cat user (p.int "min_vote_count") keys) :
    Serves user keys n (score st cat s user n p) := by
  rw [score]
  split
  · next hcatalog =>
    rw [Bool.and_eq_true, decide_eq_true_eq] at hcatalog
    have hunowned := h hcatalog
    have hrows : (candidates s (eligible user cat (p.int "min_vote_count"))
        (positives user cat).length (p.size "pool_size") (p.size "interest_clusters")).Nodup :=
      (nodup_eligible cat user _).filter _
    obtain ⟨hnodup, hsub, hlen⟩ :=
      slate_spec (p.num "kids_genre_cap") (p.num "fresh_share") hs hrows n
    dsimp only
    set picked := slate s (p.num "kids_genre_cap") (p.num "fresh_share") _ n
    have helig : ∀ c ∈ picked, c ∈ eligible user cat (p.int "min_vote_count") :=
      fun c hc => List.mem_of_mem_filter (hsub hc)
    refine ⟨⟨?_, fun t ht => ?_, fun t ht => ?_⟩, ?_⟩
    · -- rows of the catalog have identifiers of their own
      have hids : (picked.map CatalogRow.id).Nodup := hnodup.map_on fun a ha b hb =>
        List.inj_on_of_nodup_map cat.nodup (List.mem_of_mem_filter (helig a ha))
          (List.mem_of_mem_filter (helig b hb))
      have hmap := sublist_map_filterMap
        (fun id t (h : (st.titles user.kind).get id = some t) => tmdbId_of_get h)
        (picked.map CatalogRow.id)
      rw [List.filterMap_map] at hmap
      exact hids.sublist hmap
    · obtain ⟨c, hc, hget⟩ := List.mem_filterMap.mp ht
      rw [tmdbId_of_get hget]
      exact not_hard_of_eligible cat user (helig c hc)
    · obtain ⟨c, hc, hget⟩ := List.mem_filterMap.mp ht
      exact hunowned c (helig c hc) t hget
    · exact (List.length_filterMap_le _ _).trans hlen
  · have hcold := serves_coldStartPool st user hn (p.int "min_vote_count")
    exact ⟨hcold.toVetted.mono hkeys, hcold.length_le⟩

/-! ### Whatever may be shown is shown -/

def favouring (id : ℤ) : Scoring where
  distance := fun _ => 0
  combined := fun _ => 0
  usable := fun _ => true
  marginal := fun _ _ => .finite 0
  fused := fun _ => 0
  cheap := fun _ => 0
  interest := fun _ other => if other = id then 1 else 0
  quota := fun _ places => places
  z := fun _ => 0
  objective := fun _ _ => .finite 0

theorem candidates_favouring {elig : List CatalogRow} (hids : (elig.map CatalogRow.id).Nodup)
    {row : CatalogRow} (hrow : row ∈ elig) (nPos : ℕ) :
    candidates (favouring row.id) elig nPos 1 1 = [row] := by
  have hlen : 1 ≤ elig.length := List.length_pos_of_mem hrow
  have hnear : topK ((favouring row.id).interest 0) 1 elig = [row] := by
    refine take_sortDesc_one hrow fun other hother hle => ?_
    by_contra hne
    have hid : other.id ≠ row.id := fun h => hne (List.inj_on_of_nodup_map hids hother hrow h)
    simp [favouring, hid] at hle
  have hclusters : max (min (min 1 (max (nPos / 25) 1)) nPos) 1 = 1 := by omega
  have hquota : min elig.length (max ((favouring row.id).quota 0 1) 1) = 1 := by
    show min elig.length (max 1 1) = 1
    omega
  have hempty : ∀ key rows, topK key 0 rows = [] := fun _ _ => List.take_zero
  simp only [candidates, hclusters, Nat.reduceDiv, Nat.min_zero, Nat.sub_zero, hempty,
    List.nil_append, List.append_nil, List.range_one, List.flatMap_cons, List.flatMap_nil, hquota,
    hnear, List.mem_singleton]
  rw [List.filter_eq, (hids.of_map _).count, if_pos hrow, List.replicate_one]

theorem slate_singleton (s : Scoring) (row : CatalogRow) {n : ℕ} (hn : 1 ≤ n) :
    slate s kidsCap freshShare (slateInputs s [row]) n = [row] := by
  have hinputs : slateInputs s [row] = [row] := by
    show [row] ++ List.filter (fun r => r ∉ [row]) _ = [row]
    rw [List.append_right_eq_self, List.filter_eq_nil_iff]
    intro r hr
    have htop : r ∈ [row] := List.mem_of_mem_filter (List.mem_of_mem_take hr)
    simpa using htop
  obtain ⟨m, rfl⟩ := Nat.exists_eq_succ_of_ne_zero (Nat.ne_zero_of_lt hn)
  have hfirst : next s kidsCap freshShare [row] [] [row] = some row := rfl
  have hdone : ∀ k chosen, picks (next s kidsCap freshShare [row]) k chosen [] = chosen := by
    rintro (_ | k) chosen
    · rfl
    · rfl
  rw [slate, hinputs, Nat.succ_eq_add_one, picks, hfirst]
  dsimp only
  rw [List.erase_cons_head, hdone]
  rfl

theorem candidates_singleton (s : Scoring) (row : CatalogRow) (nPos pool kMax : ℕ) :
    candidates s [row] nPos pool kMax = [row] := by
  have hnear : ∀ c q, row ∈ topK (s.interest c) (min [row].length (max q 1)) [row] := by
    intro c q
    have hone : min [row].length (max q 1) = 1 := by
      rw [List.length_singleton]
      omega
    rw [hone]
    exact List.mem_singleton_self row
  rw [candidates]
  refine List.filter_cons_of_pos (decide_eq_true ?_)
  refine List.mem_append_left _ (List.mem_append_right _ (List.mem_flatMap.mpr ⟨0, ?_, hnear _ _⟩))
  rw [List.mem_range]
  omega

variable {p : P} {row : CatalogRow} {t : TitleRow} {n : ℕ}

theorem score_of_candidates {s : Scoring} (hcatalog : FromCatalog cat user)
    (hcandidates : candidates s (eligible user cat (p.int "min_vote_count"))
      (positives user cat).length (p.size "pool_size") (p.size "interest_clusters") = [row])
    (hget : (st.titles user.kind).get row.id = some t) (hn : 1 ≤ n) :
    score st cat s user n p = [t] := by
  have hif : (user.hasPositives && decide (positives user cat ≠ [])) = true := by
    rw [hcatalog.1, decide_eq_true hcatalog.2]
    rfl
  rw [score]
  dsimp only
  rw [if_pos hif, hcandidates, slate_singleton _ _ _ _ hn]
  simp only [List.filterMap_cons, hget, List.filterMap_nil]

/-- **Any title that may be shown is returned** for some scores, if the pool and the interests are
one. -/
theorem score_favouring (hcatalog : FromCatalog cat user)
    (hrow : row ∈ eligible user cat (p.int "min_vote_count"))
    (hget : (st.titles user.kind).get row.id = some t) (hpool : p.size "pool_size" = 1)
    (hinterests : p.size "interest_clusters" = 1) (hn : 1 ≤ n) :
    score st cat (favouring row.id) user n p = [t] := by
  have hids : ((eligible user cat (p.int "min_vote_count")).map CatalogRow.id).Nodup :=
    cat.nodup.sublist (List.filter_sublist.map _)
  refine score_of_candidates st cat user hcatalog ?_ hget hn
  rw [hpool, hinterests, candidates_favouring hids hrow]

end EmeraldExchange.Recommender.Ranker
