import EmeraldExchange.Gateway.Releases
import EmeraldExchange.Lib.Words

/-!
# The plan of a TV grab

For the monitored seasons of a series the indexers offer packs and episodes. The plan keeps what is
accepted and small enough for the episodes that it covers, takes the best release of each chunk, and
of these every pack, and every other release whose season has no pack and whose episodes are not
covered yet. So a season has a pack or episodes, and no episode twice, in whatever order the
releases are gone through.

Seasons are the same when their numbers are, but a chunk is known by a text. From `2 ^ 53` on two
numbers that are read as one have different texts, so that one season may get two packs
(`not_sound_large`). Where seasons that are the same have one text,
the plan is sound (`tvPlan_sound_iff`).
-/

namespace EmeraldExchange.Gateway.TvPlan

open SortBy Binary64 Releases

/-- **What the JSON library knows of values**: how it writes them, and which of them are equal. -/
structure JsonText where
  double : Binary64 → List Char
  other : JsonTree → List Char
  eq : JsonTree → JsonTree → Bool
  refl : ∀ v, eq v v = true
  symm : ∀ v w, eq v w = true → eq w v = true
  trans : ∀ u v w, eq u v = true → eq v w = true → eq u w = true
  /-- A number is equal to numbers only. -/
  number : ∀ v w, eq v w = true → (asF64 v).isSome = (asF64 w).isSome

/-- How often a season occurs among the episodes of the series. -/
abbrev Counts := List (Option JsonTree × ℕ)

/-! ### Seasons and episodes -/

def season (r : JsonTree) : Option JsonTree := r.get "seasonNumber"

def episodes (r : JsonTree) : List JsonTree :=
  ((r.get "episodeNumbers").bind JsonTree.asArray).getD []

section Texts

variable (J : JsonText)

/-- `SameValueZero` over optional values. -/
def same : Option JsonTree → Option JsonTree → Bool
  | some v, some w =>
    match asF64 v, asF64 w with
    | some x, some y => x = y
    | _, _ => J.eq v w
  | none, none => true
  | _, _ => false

/-- The text of a value; an integer that does not fit into 64 bits has been read as a double. -/
def toText : JsonTree → List Char
  | .int z => if -2 ^ 63 ≤ z ∧ z < 2 ^ 64 then Decimal.intText z else J.double (ofRat z)
  | .float q => J.double (ofRat q)
  | v => J.other v

/-- `js_str` -/
def jsStr : JsonTree → List Char
  | .str s => s.toList
  | .null => "null".toList
  | v =>
    match asF64 v with
    | some (.finite q) =>
      if q.den = 1 ∧ |q| < 2 ^ 53 then Decimal.intText q.num else toText J v
    | _ => toText J v

def Counts.get (counts : Counts) (s : Option JsonTree) : Option ℕ :=
  (counts.find? fun e => same J e.1 s).map Prod.snd

/-- The number of episodes that a release covers; none is known of a pack whose season has no known
episodes. -/
def episodeCount (counts : Counts) (r : JsonTree) : Option ℕ :=
  if fullSeason r ∧ (season r).isSome then counts.get J (season r)
  else some (max (episodes r).length 1)

/-- What a release is one of: a pack of its season, or some of its episodes. -/
def chunkKey (r : JsonTree) : List Char :=
  match fullSeason r, season r with
  | true, some sn => 'S' :: (jsStr J sn ++ "-pack".toList)
  | _, sn =>
    let eps := (episodes r).map fun
      | .null => []
      | e => jsStr J e
    'S' :: ((sn.map (jsStr J)).getD "undefined".toList ++ 'E' :: Words.join '-' eps)

/-! ### The releases that are considered -/

variable (counts : Counts) (seasons : List (Option JsonTree)) (cap : Binary64)

def inMonitored (r : JsonTree) : Bool :=
  (season r).isNone || seasons.any fun m => same J m (season r)

def withinCap (r : JsonTree) : Bool :=
  (episodeCount J counts r).any fun n => le (div (size r) (ofRat n)) cap

def within (releases : List JsonTree) : List JsonTree :=
  ((releases.filter fun r => lt (.finite 0) (size r)).filter (inMonitored J seasons)).filter
    (withinCap J counts cap)

/-- **What the profile accepts.** -/
def accepted (releases : List JsonTree) : List JsonTree :=
  (within J counts seasons cap releases).filter fun r =>
    !isTrue r "rejected" && !isTrue r "temporarilyRejected"

/-! ### The best of each chunk -/

def weight? (r : JsonTree) : Option Binary64 := (r.get "qualityWeight").bind asF64

/-- A release takes the place of another one. -/
def better (r e : JsonTree) : Bool :=
  (match weight? r, weight? e with
    | some a, some b => lt b a
    | _, _ => false) || (weight? r = weight? e && lt (size r) (size e))

def bestStep (best : List (List Char × JsonTree)) (r : JsonTree) : List (List Char × JsonTree) :=
  if best.any fun e => e.1 = chunkKey J r then
    best.map fun e => if e.1 = chunkKey J r ∧ better r e.2 then (e.1, r) else e
  else best ++ [(chunkKey J r, r)]

/-- **The best release of each chunk.** -/
def best (releases : List JsonTree) : List (List Char × JsonTree) :=
  releases.foldl (bestStep J) []

/-! ### The picks -/

/-- The episodes of a season that are covered. -/
def coveredOf (covered : List (JsonTree × List JsonTree)) (sn : JsonTree) : List JsonTree :=
  ((covered.find? fun e => same J (some e.1) (some sn)).map Prod.snd).getD []

def cover (sn : JsonTree) (eps : List JsonTree) :
    List (JsonTree × List JsonTree) → List (JsonTree × List JsonTree)
  | [] => [(sn, eps)]
  | e :: covered =>
    if same J (some e.1) (some sn) then (e.1, e.2 ++ eps) :: covered
    else e :: cover sn eps covered

/-- **The releases that are no packs**, in the order in which they are gone through. -/
def partials (packs : List JsonTree) :
    List JsonTree → List (JsonTree × List JsonTree) → List JsonTree
  | [], _ => []
  | r :: rest, covered =>
    if fullSeason r || packs.any fun p => same J (season p) (season r) then
      partials packs rest covered
    else
      match season r with
      | none => r :: partials packs rest covered
      | some sn =>
        if episodes r = [] then r :: partials packs rest covered
        else if (episodes r).any fun e =>
            (coveredOf J covered sn).any fun c => same J (some c) (some e) then
          partials packs rest covered
        else r :: partials packs rest (cover J sn (episodes r) covered)

/-- Every pack, and what no pack and no other pick covers. -/
def picks (ranked : List JsonTree) : List JsonTree :=
  ranked.filter fullSeason ++ partials J (ranked.filter fullSeason) ranked []

/-- **A plan**: what is grabbed, and the bytes that are reserved for it. -/
structure Plan where
  picks : List JsonTree
  planned : Binary64

/-- How the best releases are brought into order. A comparator that does not order them may leave
them in any. -/
structure Sorting where
  sort : List JsonTree → List JsonTree
  perm : ∀ releases, (sort releases).Perm releases

def byRank : Sorting := ⟨sortBy rank, perm_sortBy⟩

/-- **The plan of a grab**, when there is something to grab. -/
def tvPlan (sorting : Sorting) (releases : List JsonTree) : Option Plan :=
  let chunks := best J (accepted J counts seasons cap releases)
  if chunks = [] then none
  else
    let picked := picks J (sorting.sort (chunks.map Prod.snd))
    some ⟨picked, (picked.map size).foldl add (.finite 0)⟩

/-- The bytes that are reserved, unless they leave too little. -/
def reserved (available floor : Binary64) (reserve : Binary64 → Bool) (plan : Plan) :
    Option Binary64 :=
  if lt (sub available plan.planned) floor then none
  else if reserve plan.planned then some plan.planned
  else none

end Texts

variable {J : JsonText}

/-! ### Seasons that are the same -/

theorem same_some {v w : JsonTree} : same J (some v) (some w) = true ↔
    (∃ x, asF64 v = some x ∧ asF64 w = some x) ∨
      asF64 v = none ∧ asF64 w = none ∧ J.eq v w = true := by
  have hnumber := J.number v w
  rw [same]
  rcases hv : asF64 v with _ | x
  · rcases hw : asF64 w with _ | y
    · simp
    · rw [hv, hw] at hnumber
      simp only [Option.isSome_none, Option.isSome_some, Bool.false_eq_true, imp_false] at hnumber
      simp [hnumber]
  · rcases hw : asF64 w with _ | y
    · rw [hv, hw] at hnumber
      simp only [Option.isSome_none, Option.isSome_some, Bool.true_eq_false, imp_false] at hnumber
      simp [hnumber]
    · constructor
      · intro heq
        obtain rfl := of_decide_eq_true heq
        exact .inl ⟨x, rfl, rfl⟩
      · rintro (⟨z, hx, hy⟩ | ⟨hnone, -, -⟩)
        · exact decide_eq_true ((Option.some.inj hx).trans (Option.some.inj hy).symm)
        · cases hnone

theorem same_symm {s t : Option JsonTree} (h : same J s t = true) : same J t s = true := by
  rcases s with _ | v
  · rcases t with _ | w
    · rfl
    · cases h
  · rcases t with _ | w
    · cases h
    · rw [same_some] at h ⊢
      rcases h with ⟨x, hv, hw⟩ | ⟨hv, hw, heq⟩
      · exact .inl ⟨x, hw, hv⟩
      · exact .inr ⟨hw, hv, J.symm v w heq⟩

theorem same_trans {s t u : Option JsonTree} (h : same J s t = true) (h' : same J t u = true) :
    same J s u = true := by
  rcases s with _ | a
  · rcases t with _ | b
    · exact h'
    · cases h
  · rcases t with _ | b
    · cases h
    · rcases u with _ | c
      · cases h'
      · rw [same_some] at h h' ⊢
        rcases h with ⟨x, ha, hb⟩ | ⟨ha, hb, heq⟩
        · rcases h' with ⟨y, hb', hc⟩ | ⟨hb', -, -⟩
          · rw [hb] at hb'
            obtain rfl := Option.some.inj hb'
            exact .inl ⟨x, ha, hc⟩
          · rw [hb] at hb'
            cases hb'
        · rcases h' with ⟨y, hb', -⟩ | ⟨-, hc, heq'⟩
          · rw [hb] at hb'
            cases hb'
          · exact .inr ⟨ha, hc, J.trans a b c heq heq'⟩

theorem same_congr {s t u : Option JsonTree} (h : same J s t = true) :
    same J s u = same J t u := by
  rw [Bool.eq_iff_iff]
  exact ⟨same_trans (same_symm h), same_trans h⟩

/-! ### The best releases -/

/-- **Each chunk has one release**, which is one of those that are considered. -/
structure Chunks (J : JsonText) (releases : List JsonTree)
    (best : List (List Char × JsonTree)) : Prop where
  key : ∀ e ∈ best, e.1 = chunkKey J e.2
  mem : ∀ e ∈ best, e.2 ∈ releases
  nodup : (best.map Prod.fst).Nodup
  all : ∀ r ∈ releases, ∃ e ∈ best, e.1 = chunkKey J r

theorem Chunks.replace {releases : List JsonTree} {best : List (List Char × JsonTree)}
    (h : Chunks J releases best) (r : JsonTree) (hfound : chunkKey J r ∈ best.map Prod.fst) :
    Chunks J (releases ++ [r])
      (best.map fun e => if e.1 = chunkKey J r ∧ better r e.2 then (e.1, r) else e) := by
  have hkeys : (best.map fun e => if e.1 = chunkKey J r ∧ better r e.2 then (e.1, r) else e).map
      Prod.fst = best.map Prod.fst := by
    rw [List.map_map]
    refine List.map_congr_left fun e _ => ?_
    rw [Function.comp_apply]
    split
    · rfl
    · rfl
  constructor
  · intro e he
    obtain ⟨d, hd, rfl⟩ := List.mem_map.mp he
    split
    · next hkey => exact hkey.1
    · exact h.key d hd
  · intro e he
    obtain ⟨d, hd, rfl⟩ := List.mem_map.mp he
    split
    · exact List.mem_append_right _ List.mem_cons_self
    · exact List.mem_append_left _ (h.mem d hd)
  · rw [hkeys]
    exact h.nodup
  · intro r' hr'
    -- the chunks are the same as before
    refine List.mem_map.mp ?_
    rw [hkeys]
    rcases List.mem_append.mp hr' with hr' | hr'
    · exact List.mem_map.mpr (h.all r' hr')
    · rwa [List.mem_singleton.mp hr']

theorem Chunks.concat {releases : List JsonTree} {best : List (List Char × JsonTree)}
    (h : Chunks J releases best) (r : JsonTree) (hnew : chunkKey J r ∉ best.map Prod.fst) :
    Chunks J (releases ++ [r]) (best ++ [(chunkKey J r, r)]) := by
  constructor
  · intro e he
    rcases List.mem_append.mp he with he | he
    · exact h.key e he
    · rw [List.mem_singleton.mp he]
  · intro e he
    rcases List.mem_append.mp he with he | he
    · exact List.mem_append_left _ (h.mem e he)
    · rw [List.mem_singleton.mp he]
      exact List.mem_append_right _ List.mem_cons_self
  · rw [List.map_append, List.map_singleton, ← List.concat_eq_append]
    exact h.nodup.concat hnew
  · intro r' hr'
    rcases List.mem_append.mp hr' with hr' | hr'
    · obtain ⟨e, he, hkey⟩ := h.all r' hr'
      exact ⟨e, List.mem_append_left _ he, hkey⟩
    · obtain rfl := List.mem_singleton.mp hr'
      exact ⟨_, List.mem_append_right _ List.mem_cons_self, rfl⟩

theorem Chunks.step {releases : List JsonTree} {best : List (List Char × JsonTree)}
    (h : Chunks J releases best) (r : JsonTree) :
    Chunks J (releases ++ [r]) (bestStep J best r) := by
  rw [bestStep]
  split
  · next hfound =>
    obtain ⟨e, he, hkey⟩ := List.any_eq_true.mp hfound
    exact h.replace r (List.mem_map.mpr ⟨e, he, of_decide_eq_true hkey⟩)
  · next hnew =>
    refine h.concat r fun hmem => hnew ?_
    obtain ⟨e, he, hkey⟩ := List.mem_map.mp hmem
    exact List.any_eq_true.mpr ⟨e, he, decide_eq_true hkey⟩

/-- **The best releases are of different chunks.** -/
theorem chunks_best (J : JsonText) (releases : List JsonTree) :
    Chunks J releases (best J releases) := by
  have hrun : ∀ (rest before : List JsonTree) (b : List (List Char × JsonTree)),
      Chunks J before b → Chunks J (before ++ rest) (rest.foldl (bestStep J) b) := by
    intro rest
    induction rest with
    | nil =>
      intro before b h
      rw [List.append_nil]
      exact h
    | cons r rest ih =>
      intro before b h
      have hstep := ih (before ++ [r]) _ (h.step r)
      rw [List.append_assoc] at hstep
      exact hstep
  refine hrun releases [] [] ⟨?_, ?_, List.nodup_nil, ?_⟩
  · exact fun e he => absurd he List.not_mem_nil
  · exact fun e he => absurd he List.not_mem_nil
  · exact fun r hr => absurd hr List.not_mem_nil

/-! ### No episode twice -/

theorem coveredOf_cons (e : JsonTree × List JsonTree) (covered : List (JsonTree × List JsonTree))
    (s : JsonTree) : coveredOf J (e :: covered) s =
      if same J (some e.1) (some s) then e.2 else coveredOf J covered s := by
  rw [coveredOf, List.find?_cons]
  rcases same J (some e.1) (some s) with _ | _
  · rfl
  · rfl

theorem coveredOf_cover (sn : JsonTree) (eps : List JsonTree) (s : JsonTree) :
    ∀ covered : List (JsonTree × List JsonTree), coveredOf J (cover J sn eps covered) s =
      coveredOf J covered s ++ if same J (some sn) (some s) then eps else []
  | [] => by
    rw [cover, coveredOf_cons]
    rfl
  | e :: covered => by
    have ih := coveredOf_cover sn eps s covered
    rw [cover]
    rcases hsn : same J (some e.1) (some sn) with _ | _
    · rw [if_neg Bool.false_ne_true, coveredOf_cons, coveredOf_cons, ih]
      rcases hs : same J (some e.1) (some s) with _ | _
      · rfl
      · -- the season is not the same as one that is the same as another
        have hne : same J (some sn) (some s) ≠ true := fun h => by
          rw [same_trans hs (same_symm h)] at hsn
          cases hsn
        rw [if_pos rfl, if_pos rfl, if_neg hne, List.append_nil]
    · rw [if_pos rfl, coveredOf_cons, coveredOf_cons, same_congr hsn]
      rcases same J (some sn) (some s) with _ | _
      · exact (List.append_nil _).symm
      · rfl

/-- Two releases of one season share no episode. -/
def Apart (J : JsonText) (r r' : JsonTree) : Prop :=
  ∀ s s', season r = some s → season r' = some s' → same J (some s) (some s') = true →
    ∀ e ∈ episodes r, ∀ e' ∈ episodes r', same J (some e) (some e') = false

/-- A release that is no pack is picked: no pack is of its season, and its episodes are not
covered. -/
structure Partial (J : JsonText) (packs : List JsonTree) (covered : List (JsonTree × List JsonTree))
    (r : JsonTree) : Prop where
  notFull : fullSeason r = false
  noPack : ∀ p ∈ packs, same J (season p) (season r) = false
  uncovered : ∀ s, season r = some s → ∀ e ∈ episodes r, ∀ c ∈ coveredOf J covered s,
    same J (some c) (some e) = false

theorem Partial.of_cover {packs : List JsonTree} {covered : List (JsonTree × List JsonTree)}
    {sn r : JsonTree} {eps : List JsonTree} (h : Partial J packs (cover J sn eps covered) r) :
    Partial J packs covered r where
  notFull := h.notFull
  noPack := h.noPack
  uncovered s hs e he c hc := by
    refine h.uncovered s hs e he c ?_
    rw [coveredOf_cover]
    exact List.mem_append_left _ hc

/-- **The picks that are no packs**: each may be picked, and no two share an episode. -/
theorem partials_spec (packs : List JsonTree) : ∀ (ranked : List JsonTree)
    (covered : List (JsonTree × List JsonTree)),
    (∀ r ∈ partials J packs ranked covered, r ∈ ranked ∧ Partial J packs covered r) ∧
      (partials J packs ranked covered).Pairwise (Apart J)
  | [], _ => ⟨fun r hr => absurd hr List.not_mem_nil, List.Pairwise.nil⟩
  | r :: rest, covered => by
    have hskip := partials_spec packs rest covered
    have htail : ∀ {covered'}, (∀ r' ∈ partials J packs rest covered',
        r' ∈ rest ∧ Partial J packs covered' r') →
        ∀ r' ∈ partials J packs rest covered', r' ∈ r :: rest ∧ Partial J packs covered' r' :=
      fun h r' hr' => ⟨List.mem_cons_of_mem r (h r' hr').1, (h r' hr').2⟩
    rw [partials]
    split
    · exact ⟨htail hskip.1, hskip.2⟩
    · next hpick =>
      rw [Bool.or_eq_true, not_or, List.any_eq_true] at hpick
      obtain ⟨hfull, hpacks⟩ := hpick
      have hfull : fullSeason r = false := Bool.eq_false_iff.mpr hfull
      have hnone : ∀ p ∈ packs, same J (season p) (season r) = false := fun p hp =>
        Bool.eq_false_iff.mpr fun h => hpacks ⟨p, hp, h⟩
      -- the release is picked, and what follows is apart from it
      have hcons : ∀ covered', (∀ r', Partial J packs covered' r' → Partial J packs covered r') →
          (∀ r', Partial J packs covered' r' → Apart J r r') → Partial J packs covered r →
          (∀ r' ∈ r :: partials J packs rest covered',
            r' ∈ r :: rest ∧ Partial J packs covered r') ∧
            (r :: partials J packs rest covered').Pairwise (Apart J) := by
        intro covered' hweaken hapart hr
        obtain ⟨hall, hpairwise⟩ := partials_spec packs rest covered'
        refine ⟨fun r' hr' => ?_, List.pairwise_cons.mpr ⟨fun r' hr' => ?_, hpairwise⟩⟩
        · rcases List.mem_cons.mp hr' with rfl | hr'
          · exact ⟨List.mem_cons_self, hr⟩
          · exact ⟨List.mem_cons_of_mem r (hall r' hr').1, hweaken r' (hall r' hr').2⟩
        · exact hapart r' (hall r' hr').2
      split
      · next hseason =>
        refine hcons covered (fun _ h => h) (fun _ _ s _ hs => ?_) ⟨hfull, hnone, fun s hs => ?_⟩
        · rw [hseason] at hs
          cases hs
        · rw [hseason] at hs
          cases hs
      · next sn hseason =>
        split
        · next hempty =>
          refine hcons covered (fun _ h => h) (fun _ _ _ _ _ _ _ e he => ?_)
            ⟨hfull, hnone, fun _ _ e he => ?_⟩
          · rw [hempty] at he
            cases he
          · rw [hempty] at he
            cases he
        · split
          · exact ⟨htail hskip.1, hskip.2⟩
          · next hfree =>
            refine hcons (cover J sn (episodes r) covered) (fun _ => Partial.of_cover) ?_
              ⟨hfull, hnone, ?_⟩
            · intro r' hr' s s' hs hs' hsame e he e' he'
              rw [hseason] at hs
              obtain rfl := Option.some.inj hs
              refine hr'.uncovered s' hs' e' he' e ?_
              rw [coveredOf_cover, if_pos hsame]
              exact List.mem_append_right _ he
            · intro s hs e he c hc
              rw [hseason] at hs
              obtain rfl := Option.some.inj hs
              refine Bool.eq_false_iff.mpr fun h => hfree ?_
              exact List.any_eq_true.mpr ⟨e, he, List.any_eq_true.mpr ⟨c, hc, h⟩⟩

/-! ### The plan -/

/-- **What a plan has to be**, for the releases that it is made from. -/
structure Sound (J : JsonText) (counts : Counts) (seasons : List (Option JsonTree))
    (cap : Binary64) (releases : List JsonTree) (plan : Plan) : Prop where
  /-- What is picked is accepted. -/
  accepted : ∀ r ∈ plan.picks, r ∈ releases ∧ isTrue r "rejected" = false ∧
    isTrue r "temporarilyRejected" = false
  /-- It is small enough for each of the episodes that it covers. -/
  cap : ∀ r ∈ plan.picks, ∃ n, episodeCount J counts r = some n ∧
    le (div (size r) (ofRat n)) cap = true
  /-- Its season is monitored, when it is known. -/
  monitored : ∀ r ∈ plan.picks, ∀ s, season r = some s →
    ∃ m ∈ seasons, same J m (some s) = true
  /-- No season has two packs. -/
  onePack : plan.picks.Pairwise fun r r' => fullSeason r = true → fullSeason r' = true →
    ∀ s s', season r = some s → season r' = some s' → same J (some s) (some s') = false
  /-- No season has episodes beside a pack. -/
  noneBeside : ∀ p ∈ plan.picks, ∀ r ∈ plan.picks, fullSeason p = true → fullSeason r = false →
    same J (season p) (season r) = false
  /-- No two picks of a season share an episode. -/
  apart : plan.picks.Pairwise fun r r' => fullSeason r = false → fullSeason r' = false →
    Apart J r r'
  /-- What is reserved is the sum of the sizes, as doubles are added. -/
  bytes : ∀ available floor reserve b, reserved available floor reserve plan = some b →
    b = (plan.picks.map size).foldl add (.finite 0)
  /-- Sizes that are integers are summed up exactly, up to `2 ^ 53`. -/
  exact : ∀ bytes : JsonTree → ℕ, (∀ r ∈ plan.picks, size r = .finite (bytes r)) →
    (plan.picks.map bytes).sum ≤ 2 ^ 53 → plan.planned = .finite ((plan.picks.map bytes).sum : ℕ)

/-- **Seasons that are the same have one text**, those of the packs that are considered. -/
def OneText (J : JsonText) (releases : List JsonTree) : Prop :=
  ∀ r ∈ releases, ∀ r' ∈ releases, fullSeason r = true → fullSeason r' = true →
    ∀ s s', season r = some s → season r' = some s' → same J (some s) (some s') = true →
      jsStr J s = jsStr J s'

/-- The seasons of the packs are integers of 64 bits. -/
def IntegerSeasons (releases : List JsonTree) : Prop :=
  ∀ r ∈ releases, fullSeason r = true → ∀ s, season r = some s →
    ∃ z : ℤ, s = .int z ∧ -2 ^ 63 ≤ z ∧ z < 2 ^ 64

theorem foldl_add_finite : ∀ (sizes : List ℕ) (total : ℕ), total + sizes.sum ≤ 2 ^ 53 →
    (sizes.map fun n => Binary64.finite (n : ℕ)).foldl add (.finite (total : ℕ)) =
      .finite ((total + sizes.sum : ℕ))
  | [], _, _ => rfl
  | n :: sizes, total, h => by
    rw [List.sum_cons] at h
    have hadd : add (.finite (total : ℕ)) (.finite (n : ℕ)) = .finite ((total + n : ℕ)) := by
      have hround := ofRat_intCast (z := ((total + n : ℕ) : ℤ)) (by omega)
      rw [add]
      push_cast at hround ⊢
      exact hround
    rw [List.map_cons, List.foldl_cons, hadd, foldl_add_finite sizes (total + n) (by omega),
      List.sum_cons, Nat.add_assoc]


section Plans

variable {counts : Counts} {seasons : List (Option JsonTree)} {cap : Binary64} {sorting : Sorting}
  {releases : List JsonTree}

theorem tvPlan_eq_some {plan : Plan}
    (h : tvPlan J counts seasons cap sorting releases = some plan) :
    ∃ ranked, ranked.Perm ((best J (accepted J counts seasons cap releases)).map Prod.snd) ∧
      plan = ⟨picks J ranked, ((picks J ranked).map size).foldl add (.finite 0)⟩ := by
  rw [tvPlan] at h
  dsimp only at h
  split at h
  · cases h
  · exact ⟨_, sorting.perm _, (Option.some.inj h).symm⟩

/-- **Where something is accepted there is a plan.** -/
theorem exists_tvPlan (sorting : Sorting) {w : JsonTree}
    (hw : w ∈ (best J (accepted J counts seasons cap releases)).map Prod.snd) :
    ∃ ranked plan, ranked.Perm ((best J (accepted J counts seasons cap releases)).map Prod.snd) ∧
      tvPlan J counts seasons cap sorting releases = some plan ∧ plan.picks = picks J ranked := by
  refine ⟨_, _, sorting.perm _, if_neg fun hnil => ?_, rfl⟩
  rw [hnil] at hw
  cases hw

theorem mem_accepted {r : JsonTree} (h : r ∈ accepted J counts seasons cap releases) :
    (r ∈ releases ∧ isTrue r "rejected" = false ∧ isTrue r "temporarilyRejected" = false) ∧
      inMonitored J seasons r = true ∧ withinCap J counts cap r = true := by
  rw [accepted, List.mem_filter, Bool.and_eq_true, Bool.not_eq_true', Bool.not_eq_true', within,
    List.mem_filter, List.mem_filter, List.mem_filter] at h
  obtain ⟨⟨⟨⟨hmem, -⟩, hmonitored⟩, hcap⟩, hrejected⟩ := h
  exact ⟨⟨hmem, hrejected⟩, hmonitored, hcap⟩

theorem mem_picks {ranked : List JsonTree} {r : JsonTree} (h : r ∈ picks J ranked) :
    r ∈ ranked ∧ (r ∈ ranked.filter fullSeason ∨ Partial J (ranked.filter fullSeason) [] r) := by
  rcases List.mem_append.mp h with h | h
  · exact ⟨(List.mem_filter.mp h).1, .inl h⟩
  · obtain ⟨hmem, hpart⟩ := (partials_spec _ ranked []).1 r h
    exact ⟨hmem, .inr hpart⟩

theorem pairwise_chunkKey {ranked considered : List JsonTree}
    (hperm : ranked.Perm ((best J considered).map Prod.snd)) :
    ranked.Pairwise fun r r' => chunkKey J r ≠ chunkKey J r' := by
  have hchunks := chunks_best J considered
  have hkeys : ((best J considered).map Prod.snd).map (chunkKey J) =
      (best J considered).map Prod.fst := by
    rw [List.map_map]
    exact List.map_congr_left fun e he => (hchunks.key e he).symm
  have hnodup : (ranked.map (chunkKey J)).Nodup :=
    (hperm.map (chunkKey J)).nodup_iff.mpr (hkeys ▸ hchunks.nodup)
  exact List.pairwise_map.mp hnodup

theorem chunkKey_pack {r s : JsonTree} (hfull : fullSeason r = true) (hs : season r = some s) :
    chunkKey J r = 'S' :: (jsStr J s ++ "-pack".toList) := by
  rw [chunkKey, hfull, hs]

theorem mem_considered {ranked considered : List JsonTree}
    (hperm : ranked.Perm ((best J considered).map Prod.snd)) {r : JsonTree} (hr : r ∈ ranked) :
    r ∈ considered := by
  obtain ⟨e, he, rfl⟩ := List.mem_map.mp (hperm.mem_iff.mp hr)
  exact (chunks_best J considered).mem e he

theorem pairwise_picks {ranked : List JsonTree} {R : JsonTree → JsonTree → Prop}
    (hpacks : (ranked.filter fullSeason).Pairwise R)
    (hpart : (partials J (ranked.filter fullSeason) ranked []).Pairwise R)
    (hbetween : ∀ p r, fullSeason p = true → fullSeason r = false → R p r) :
    (picks J ranked).Pairwise R := by
  refine List.pairwise_append.mpr ⟨hpacks, hpart, fun p hp r hr => ?_⟩
  exact hbetween p r (List.mem_filter.mp hp).2 ((partials_spec _ ranked []).1 r hr).2.notFull

/-- **Picks of one season are packs of one text**, and so of one key: there is only one. -/
theorem onePack_picks {ranked considered : List JsonTree} (htext : OneText J considered)
    (hperm : ranked.Perm ((best J considered).map Prod.snd)) :
    (picks J ranked).Pairwise fun r r' => fullSeason r = true → fullSeason r' = true →
      ∀ s s', season r = some s → season r' = some s' → same J (some s) (some s') = false := by
  refine pairwise_picks ?_ ?_ fun _ _ _ hnot _ hfull' => ?_
  · refine List.Pairwise.imp_of_mem ?_ ((pairwise_chunkKey hperm).filter _)
    intro r r' hr hr' hkey hfull hfull' s s' hs hs'
    refine Bool.eq_false_iff.mpr fun hsame => hkey ?_
    have hr := mem_considered hperm (List.mem_filter.mp hr).1
    have hr' := mem_considered hperm (List.mem_filter.mp hr').1
    rw [chunkKey_pack hfull hs, chunkKey_pack hfull' hs',
      htext r hr r' hr' hfull hfull' s s' hs hs' hsame]
  · have hpart := partials_spec (J := J) (ranked.filter fullSeason) ranked []
    refine List.Pairwise.imp_of_mem (fun {r r'} hr _ _ hfull => ?_) hpart.2
    rw [(hpart.1 r hr).2.notFull] at hfull
    cases hfull
  · rw [hnot] at hfull'
    cases hfull'

/-- **No pick is beside a pack of its season.** -/
theorem noneBeside_picks {ranked : List JsonTree} {p r : JsonTree} (hp : p ∈ picks J ranked)
    (hr : r ∈ picks J ranked) (hfull : fullSeason p = true) (hnot : fullSeason r = false) :
    same J (season p) (season r) = false := by
  rcases (mem_picks hp).2 with hpack | hpart
  · rcases (mem_picks hr).2 with hr | hr
    · rw [(List.mem_filter.mp hr).2] at hnot
      cases hnot
    · exact hr.noPack p hpack
  · rw [hpart.notFull] at hfull
    cases hfull

/-- **No two picks of a season share an episode.** -/
theorem apart_picks (ranked : List JsonTree) :
    (picks J ranked).Pairwise fun r r' => fullSeason r = false → fullSeason r' = false →
      Apart J r r' := by
  refine pairwise_picks ?_ ?_ fun p _ hfull _ hnot => ?_
  · refine List.Pairwise.imp_of_mem (fun {r _} hr _ _ hnot => ?_)
      (List.pairwise_of_forall (R := fun _ _ : JsonTree => True) fun _ _ => trivial)
    rw [(List.mem_filter.mp hr).2] at hnot
    cases hnot
  · exact (partials_spec _ ranked []).2.imp fun hapart _ _ => hapart
  · rw [hfull] at hnot
    cases hnot

/-- Sizes that are integers are summed up exactly, up to `2 ^ 53`. -/
theorem foldl_add_sizes {picked : List JsonTree} {bytes : JsonTree → ℕ}
    (hbytes : ∀ r ∈ picked, size r = .finite (bytes r)) (hsum : (picked.map bytes).sum ≤ 2 ^ 53) :
    (picked.map size).foldl add (.finite 0) = .finite ((picked.map bytes).sum : ℕ) := by
  have hmap : picked.map size = (picked.map bytes).map fun n => Binary64.finite (n : ℕ) := by
    rw [List.map_map]
    exact List.map_congr_left hbytes
  have hfold := foldl_add_finite (picked.map bytes) 0 (by omega)
  rw [hmap]
  simpa using hfold

/-- **A plan is sound where seasons that are the same have one text.** -/
theorem sound_of_oneText (htext : OneText J (accepted J counts seasons cap releases)) {plan : Plan}
    (hplan : tvPlan J counts seasons cap sorting releases = some plan) :
    Sound J counts seasons cap releases plan := by
  obtain ⟨ranked, hperm, rfl⟩ := tvPlan_eq_some hplan
  have hpick : ∀ r ∈ picks J ranked, r ∈ accepted J counts seasons cap releases := fun r hr =>
    mem_considered hperm (mem_picks hr).1
  constructor
  · exact fun r hr => (mem_accepted (hpick r hr)).1
  · intro r hr
    have hcap := (mem_accepted (hpick r hr)).2.2
    rw [withinCap] at hcap
    rcases hn : episodeCount J counts r with _ | n
    · rw [hn] at hcap
      cases hcap
    · rw [hn] at hcap
      exact ⟨n, rfl, hcap⟩
  · intro r hr s hs
    have hmonitored := (mem_accepted (hpick r hr)).2.1
    rw [inMonitored, hs] at hmonitored
    exact List.any_eq_true.mp hmonitored
  · exact onePack_picks htext hperm
  · exact fun p hp r hr => noneBeside_picks hp hr
  · exact apart_picks ranked
  · intro available floor reserve b hb
    rw [reserved] at hb
    split at hb
    · cases hb
    · split at hb
      · exact (Option.some.inj hb).symm
      · cases hb
  · exact fun bytes hbytes hsum => foldl_add_sizes hbytes hsum

/-! ### Where it is not -/

theorem notMem_intText (z : ℤ) : 'E' ∉ Decimal.intText z := by
  have htext : ∀ n : ℕ, 'E' ∉ Decimal.text n := by
    intro n hmem
    exact absurd (Decimal.isDigit_of_mem_text hmem) (by decide)
  rw [Decimal.intText]
  split
  · rw [List.mem_cons, not_or]
    exact ⟨by decide, htext _⟩
  · exact htext _

theorem intText_injective {z z' : ℤ} (h : Decimal.intText z = Decimal.intText z') : z = z' := by
  have hread := Decimal.readInt_intText_append z Decimal.ends_nil
  have hread' := Decimal.readInt_intText_append z' Decimal.ends_nil
  rw [h, hread'] at hread
  exact (congrArg Prod.fst (Option.some.inj hread)).symm

/-- An integer that is written as the number that it is read as. -/
def Small (z : ℤ) (q : ℚ) : Prop := ofRat z = .finite q ∧ q.den = 1 ∧ |q| < 2 ^ 53

/-- The text of an integer of 64 bits: that of the double that it is read as, while that is less
than `2 ^ 53`, and else its own. -/
theorem jsStr_int {z : ℤ} (hz : -2 ^ 63 ≤ z ∧ z < 2 ^ 64) :
    (∃ q, Small z q ∧ jsStr J (.int z) = Decimal.intText q.num) ∨
      (∀ q, ¬ Small z q) ∧ jsStr J (.int z) = Decimal.intText z := by
  have htext : toText J (.int z) = Decimal.intText z := if_pos hz
  have hasF64 : asF64 (.int z) = some (ofRat z) := rfl
  rcases hround : ofRat z with _ | _ | q
  · refine .inr ⟨fun q h => Binary64.noConfusion (hround.symm.trans h.1), ?_⟩
    simp only [jsStr, hasF64, hround, htext]
  · refine .inr ⟨fun q h => Binary64.noConfusion (hround.symm.trans h.1), ?_⟩
    simp only [jsStr, hasF64, hround, htext]
  · by_cases hsmall : q.den = 1 ∧ |q| < 2 ^ 53
    · refine .inl ⟨q, ⟨hround, hsmall⟩, ?_⟩
      simp only [jsStr, hasF64, hround]
      exact if_pos hsmall
    · refine .inr ⟨fun q' h => ?_, ?_⟩
      · obtain rfl := Binary64.finite.inj (hround.symm.trans h.1)
        exact hsmall h.2
      · simp only [jsStr, hasF64, hround]
        rw [if_neg hsmall, htext]

theorem Small.eq_num {z : ℤ} {q : ℚ} (h : Small z q) : (q.num : ℚ) = q :=
  Rat.coe_int_num_of_den_eq_one h.2.1

theorem Small.num {z : ℤ} {q : ℚ} (h : Small z q) : Small q.num q := by
  have hlt : q.num.natAbs ≤ 2 ^ 53 := by
    have habs := h.2.2
    rw [← h.eq_num, ← Int.cast_abs] at habs
    have habs : |q.num| < 2 ^ 53 := by exact_mod_cast habs
    rw [Int.abs_eq_natAbs] at habs
    omega
  exact ⟨(ofRat_intCast hlt).trans (congrArg _ h.eq_num), h.2⟩

/-- **Integers with one text are one number.** -/
theorem asF64_eq_of_jsStr {z z' : ℤ} (hz : -2 ^ 63 ≤ z ∧ z < 2 ^ 64)
    (hz' : -2 ^ 63 ≤ z' ∧ z' < 2 ^ 64) (h : jsStr J (.int z) = jsStr J (.int z')) :
    ofRat z = ofRat z' := by
  rcases jsStr_int (J := J) hz with ⟨q, hq, htext⟩ | ⟨hlarge, htext⟩
  · rcases jsStr_int (J := J) hz' with ⟨q', hq', htext'⟩ | ⟨hlarge, htext'⟩
    · rw [htext, htext'] at h
      have hnum := intText_injective h
      rw [hq.1, hq'.1, ← hq.eq_num, ← hq'.eq_num, hnum]
    · rw [htext, htext'] at h
      exact absurd (intText_injective h ▸ hq.num) (hlarge q)
  · rcases jsStr_int (J := J) hz' with ⟨q', hq', htext'⟩ | ⟨-, htext'⟩
    · rw [htext, htext'] at h
      exact absurd (intText_injective h ▸ hq'.num) (hlarge q')
    · rw [htext, htext'] at h
      rw [intText_injective h]

theorem pack_of_chunkKey {r w s : JsonTree} (hfull : fullSeason r = true)
    (hs : season r = some s) {z : ℤ} (hint : s = .int z) (hz : -2 ^ 63 ≤ z ∧ z < 2 ^ 64)
    (hkey : chunkKey J w = chunkKey J r) :
    fullSeason w = true ∧ ∃ t, season w = some t ∧ jsStr J t = jsStr J s := by
  rw [chunkKey_pack hfull hs] at hkey
  have hnotE : 'E' ∉ 'S' :: (jsStr J s ++ "-pack".toList) := by
    have htext : 'E' ∉ jsStr J s := by
      rw [hint]
      rcases jsStr_int (J := J) hz with ⟨q, -, htext⟩ | ⟨-, htext⟩
      · rw [htext]
        exact notMem_intText _
      · rw [htext]
        exact notMem_intText _
    rw [List.mem_cons, List.mem_append, not_or, not_or]
    exact ⟨by decide, htext, by decide⟩
  by_cases hpack : fullSeason w = true ∧ ∃ t, season w = some t
  · obtain ⟨hw, t, ht⟩ := hpack
    rw [chunkKey_pack hw ht] at hkey
    exact ⟨hw, t, ht, List.append_cancel_right (List.cons.inj hkey).2⟩
  · refine absurd ?_ hnotE
    rw [← hkey, chunkKey]
    split
    · next hw ht => exact absurd ⟨hw, _, ht⟩ hpack
    · simp

/-- **The best of the chunk of a pack** is a pack of the same season, when the seasons of the packs
are integers. -/
theorem exists_pack_best {releases : List JsonTree} (hint : IntegerSeasons releases)
    {r s : JsonTree} (hr : r ∈ releases) (hfull : fullSeason r = true) (hs : season r = some s) :
    ∃ w ∈ (best J releases).map Prod.snd, chunkKey J w = chunkKey J r ∧ fullSeason w = true ∧
      ∃ t, season w = some t ∧ same J (some t) (some s) = true := by
  have hchunks := chunks_best J releases
  obtain ⟨z, rfl, hz⟩ := hint r hr hfull s hs
  obtain ⟨e, he, hkey⟩ := hchunks.all r hr
  rw [hchunks.key e he] at hkey
  obtain ⟨hw, t, ht, htext⟩ := pack_of_chunkKey hfull hs rfl hz hkey
  obtain ⟨y, rfl, hy⟩ := hint e.2 (hchunks.mem e he) hw t ht
  refine ⟨e.2, List.mem_map_of_mem he, hkey, hw, _, ht, same_some.mpr (.inl ?_)⟩
  exact ⟨ofRat y, rfl, congrArg some (asF64_eq_of_jsStr hz hy htext.symm)⟩

/-- **A sound plan has seasons of one text**, when the seasons of the packs are integers. -/
theorem oneText_of_sound (hint : IntegerSeasons (accepted J counts seasons cap releases))
    (hsound : ∀ plan, tvPlan J counts seasons cap sorting releases = some plan →
      Sound J counts seasons cap releases plan) :
    OneText J (accepted J counts seasons cap releases) := by
  intro r hr r' hr' hfull hfull' s s' hs hs' hsame
  obtain ⟨w, hw, hkey, hwfull, t, ht, hts⟩ := exists_pack_best hint hr hfull hs
  obtain ⟨w', hw', hkey', hwfull', t', ht', hts'⟩ := exists_pack_best hint hr' hfull' hs'
  obtain ⟨ranked, plan, hperm, hplan, hpicks⟩ := exists_tvPlan sorting hw
  by_contra hne
  have hdifferent : w ≠ w' := by
    rintro rfl
    rw [chunkKey_pack hfull hs] at hkey
    rw [hkey, chunkKey_pack hfull' hs'] at hkey'
    exact hne (List.append_cancel_right (List.cons.inj hkey').2)
  -- every pack is picked, so both are in the plan
  have hpicked : ∀ {v : JsonTree}, v ∈ (best J (accepted J counts seasons cap releases)).map
      Prod.snd → fullSeason v = true → v ∈ plan.picks := fun hv hfull => by
    rw [hpicks]
    exact List.mem_append_left _ (List.mem_filter.mpr ⟨hperm.mem_iff.mpr hv, hfull⟩)
  have hsymm : Std.Symm fun r r' => fullSeason r = true → fullSeason r' = true →
      ∀ s s', season r = some s → season r' = some s' → same J (some s) (some s') = false := by
    constructor
    intro a b hab ha hb s s' hs hs'
    refine Bool.eq_false_iff.mpr fun h => ?_
    exact Bool.eq_false_iff.mp (hab hb ha s' s hs' hs) (same_symm h)
  have hfalse := (hsound _ hplan).onePack.forall (hpicked hw hwfull) (hpicked hw' hwfull')
    hdifferent hwfull hwfull' t t' ht ht'
  rw [same_trans (same_trans hts hsame) (same_symm hts')] at hfalse
  cases hfalse

/-- **A plan is sound where seasons that are the same have one text**, and, when the seasons of the
packs are integers, only there. -/
theorem tvPlan_sound_iff (J : JsonText) (counts : Counts) (seasons : List (Option JsonTree))
    (cap : Binary64) (sorting : Sorting) (releases : List JsonTree) :
    (OneText J (accepted J counts seasons cap releases) →
      ∀ plan, tvPlan J counts seasons cap sorting releases = some plan →
        Sound J counts seasons cap releases plan) ∧
    (IntegerSeasons (accepted J counts seasons cap releases) →
      (∀ plan, tvPlan J counts seasons cap sorting releases = some plan →
        Sound J counts seasons cap releases plan) →
      OneText J (accepted J counts seasons cap releases)) :=
  ⟨fun htext _ hplan => sound_of_oneText htext hplan, oneText_of_sound⟩

end Plans

/-- A library that is asked only for integers of 64 bits. -/
def integersOnly : JsonText where
  double _ := []
  other _ := []
  eq v w := (asF64 v).isSome = (asF64 w).isSome
  refl _ := decide_eq_true rfl
  symm _ _ h := decide_eq_true (of_decide_eq_true h).symm
  trans _ _ _ h h' := decide_eq_true ((of_decide_eq_true h).trans (of_decide_eq_true h'))
  number _ _ h := of_decide_eq_true h

def packOf (z : ℤ) : JsonTree :=
  .obj [("seasonNumber", .int z), ("fullSeason", .bool true), ("size", .int 1)]

/-- Two packs, the numbers of whose seasons are read as one. -/
def largePacks : List JsonTree := [packOf 9007199254740992, packOf 9007199254740993]

def largeCounts : Counts := [(some (.int 9007199254740992), 1)]

/-- Two numbers that are read as `2 ^ 53` have different texts, and their season gets two packs. -/
theorem not_sound_large : ¬ ∀ (J : JsonText) (counts : Counts) (seasons : List (Option JsonTree))
    (cap : Binary64) (releases : List JsonTree) (plan : Plan),
    tvPlan J counts seasons cap byRank releases = some plan →
      Sound J counts seasons cap releases plan := by
  intro hall
  have hroundOdd : ofRat (9007199254740993 : ℤ) = .finite 9007199254740992 := by decide +kernel
  have hround : ofRat (9007199254740992 : ℤ) = .finite 9007199254740992 := by decide +kernel
  have hlarge : ∀ {z : ℤ}, ofRat z = .finite 9007199254740992 → -2 ^ 63 ≤ z ∧ z < 2 ^ 64 →
      jsStr integersOnly (.int z) = Decimal.intText z := by
    intro z hz hbounds
    rcases jsStr_int (J := integersOnly) hbounds with ⟨q, hq, -⟩ | ⟨-, htext⟩
    · obtain rfl := Binary64.finite.inj (hz.symm.trans hq.1)
      exact absurd hq.2.2 (by norm_num)
    · exact htext
  have hall := hall integersOnly largeCounts [some (.int 9007199254740992)] (.finite 1) largePacks
  have haccepted : accepted integersOnly largeCounts [some (.int 9007199254740992)] (.finite 1)
      largePacks = largePacks := by
    refine List.Sublist.eq_of_length ?_ (by decide +kernel)
    exact List.filter_sublist.trans (List.filter_sublist.trans
      (List.filter_sublist.trans List.filter_sublist))
  have htext := oneText_of_sound (fun r hr _ s hs => ?_) hall
  · rw [haccepted] at htext
    have heq := htext (packOf 9007199254740992) (by simp [largePacks]) (packOf 9007199254740993)
      (by simp [largePacks]) rfl rfl _ _ rfl rfl (same_some.mpr (.inl ⟨_, congrArg some hround,
        congrArg some hroundOdd⟩))
    rw [hlarge hround (by norm_num), hlarge hroundOdd (by norm_num)] at heq
    exact absurd (intText_injective heq) (by norm_num)
  · rw [haccepted] at hr
    have hseason : ∀ z, season (packOf z) = some (.int z) := fun _ => rfl
    rcases List.mem_cons.mp hr with rfl | hr
    · rw [hseason] at hs
      exact ⟨_, (Option.some.inj hs).symm, by norm_num⟩
    · obtain rfl := List.mem_singleton.mp hr
      rw [hseason] at hs
      exact ⟨_, (Option.some.inj hs).symm, by norm_num⟩

end EmeraldExchange.Gateway.TvPlan
