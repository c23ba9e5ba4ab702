import EmeraldExchange.Gateway.Suggestions
import EmeraldExchange.Lib.Repeats

/-!
# What a strip shows

A strip has at most twenty titles, each of them once, and none that the household owns or has
rejected. On every path the titles are held against the household; trending and discovered titles
come once, the validator keeps track of what it has seen, and what fills up is told from what is
there. Only the recommender's items are taken as they come: a reply that has a title twice puts it
into the strip twice. A strip is safe exactly when it does not come from such a reply
(`served_iff`).
-/

namespace EmeraldExchange.Gateway.Suggestions

/-- What tells items apart, and what they are held against the household by. -/
def Item.name (it : Item) : ℤ × String := (it.id, it.title)

/-- **A safe strip.** A title of the recommender is compared as a whole. -/
structure SafeStrip (ctx : Ctx) (source : String) (items : List Item) : Prop where
  length_le : items.length ≤ targetCount
  nodup : (items.map Item.id).Nodup
  idSafe : ∀ it ∈ items, ctx.idSafe it = true
  fullTitleSafe : ∀ it ∈ items, ctx.fullTitleSafe it = true
  titleSafe : source ≠ "recommender" → ∀ it ∈ items, ctx.titleSafe it = true

def Response.Safe (ctx : Ctx) : Response → Prop
  | .error _ _ => True
  | .strip source items => SafeStrip ctx source items

variable (print : JsonTree → String)

/-- **The strip of a request is safe.** -/
def Served (cfg : Config) (w : World) (q : Request) : Prop :=
  ∀ ctx, q.ctx w = .ok ctx → (suggestions print cfg w q).Safe ctx

/-- A row of a reply that is an item and is safe. -/
def Ctx.shown (ctx : Ctx) (r : JsonTree) : Option Item :=
  (scoredItem print r).filter fun it => ctx.idSafe it && ctx.fullTitleSafe it

/-- **A request that the recommender serves with a reply that has no title twice** among its first
rows to be shown; every other request. -/
def Fair (cfg : Config) (w : World) (q : Request) : Prop :=
  ∀ ctx, q.ctx w = .ok ctx → q.forcesTrending cfg = false → cfg.useLocalRecommender = true →
    w.feedbackReadable = true →
      ¬ Repeats (ctx.shown print) Item.id targetCount (w.scored.getD [])

/-! ### Sound lists -/

section Sound

variable {ctx : Ctx} {items more : List Item}

/-- **Titles of a strip, of whatever length.** -/
structure Sound (ctx : Ctx) (items : List Item) : Prop where
  nodup : (items.map Item.id).Nodup
  safe : ∀ it ∈ items, ctx.idSafe it = true ∧ ctx.titleSafe it = true

theorem idSafe_congr {it it' : Item} (h : it.name = it'.name) : ctx.idSafe it = ctx.idSafe it' := by
  rw [Ctx.idSafe, Ctx.idSafe, show it.id = it'.id from congrArg Prod.fst h]

theorem titleSafe_congr {it it' : Item} (h : it.name = it'.name) :
    ctx.titleSafe it = ctx.titleSafe it' := by
  rw [Ctx.titleSafe, Ctx.titleSafe, show it.title = it'.title from congrArg Prod.snd h]

theorem fullTitleSafe_congr {it it' : Item} (h : it.name = it'.name) :
    ctx.fullTitleSafe it = ctx.fullTitleSafe it' := by
  rw [Ctx.fullTitleSafe, Ctx.fullTitleSafe, show it.title = it'.title from congrArg Prod.snd h]

theorem fullTitleSafe_of_titleSafe {it : Item} (h : ctx.titleSafe it = true) :
    ctx.fullTitleSafe it = true := by
  rw [Ctx.titleSafe, Bool.and_eq_true, Bool.not_eq_true', Bool.not_eq_true'] at h
  have hrejected := not_mem_of_titleMatches h.1
  have hlibrary := fun hmem => not_mem_of_titleMatches h.2 (ctx.full_subset hmem)
  rw [Ctx.fullTitleSafe, Bool.and_eq_true, decide_eq_true_eq, decide_eq_true_eq]
  exact ⟨hrejected, hlibrary⟩

theorem ids_eq_of_names (h : items.map Item.name = more.map Item.name) :
    items.map Item.id = more.map Item.id := by
  have hfst := congrArg (List.map Prod.fst) h
  rw [List.map_map, List.map_map] at hfst
  exact hfst

theorem exists_of_names (h : items.map Item.name = more.map Item.name) {it : Item}
    (hit : it ∈ items) : ∃ it' ∈ more, it'.name = it.name :=
  List.mem_map.mp (h ▸ List.mem_map_of_mem hit)

theorem Sound.of_names (h : Sound ctx more) (heq : items.map Item.name = more.map Item.name) :
    Sound ctx items where
  nodup := ids_eq_of_names heq ▸ h.nodup
  safe it hit := by
    obtain ⟨it', hit', hname⟩ := exists_of_names heq hit
    rw [← idSafe_congr hname, ← titleSafe_congr hname]
    exact h.safe it' hit'

theorem SafeStrip.of_names {source : String} (h : SafeStrip ctx source more)
    (heq : items.map Item.name = more.map Item.name) : SafeStrip ctx source items where
  length_le := by
    have hlen := congrArg List.length heq
    rw [List.length_map, List.length_map] at hlen
    exact hlen ▸ h.length_le
  nodup := ids_eq_of_names heq ▸ h.nodup
  idSafe it hit := by
    obtain ⟨it', hit', hname⟩ := exists_of_names heq hit
    rw [← idSafe_congr hname]
    exact h.idSafe it' hit'
  fullTitleSafe it hit := by
    obtain ⟨it', hit', hname⟩ := exists_of_names heq hit
    rw [← fullTitleSafe_congr hname]
    exact h.fullTitleSafe it' hit'
  titleSafe hsource it hit := by
    obtain ⟨it', hit', hname⟩ := exists_of_names heq hit
    rw [← titleSafe_congr hname]
    exact h.titleSafe hsource it' hit'

theorem Sound.nil : Sound ctx [] := ⟨List.nodup_nil, fun _ h => by cases h⟩

theorem Sound.sublist (h : Sound ctx more) (hsub : items.Sublist more) : Sound ctx items :=
  ⟨h.nodup.sublist (hsub.map _), fun it hit => h.safe it (hsub.subset hit)⟩

theorem Sound.append (h : Sound ctx items) (h' : Sound ctx more)
    (hnew : ∀ it ∈ more, it.id ∉ items.map Item.id) : Sound ctx (items ++ more) where
  nodup := by
    rw [List.map_append, List.nodup_append]
    refine ⟨h.nodup, h'.nodup, ?_⟩
    rintro id hid id' hid' rfl
    obtain ⟨it, hit, rfl⟩ := List.mem_map.mp hid'
    exact hnew it hit hid
  safe it hit := (List.mem_append.mp hit).elim (h.safe it) (h'.safe it)

theorem Sound.concat (h : Sound ctx items) {it : Item} (hid : it.id ∉ items.map Item.id)
    (hidSafe : ctx.idSafe it = true) (htitle : ctx.titleSafe it = true) :
    Sound ctx (items ++ [it]) := by
  refine h.append ⟨List.nodup_singleton _, ?_⟩ ?_
  · rintro it' hit'
    obtain rfl := List.mem_singleton.mp hit'
    exact ⟨hidSafe, htitle⟩
  · rintro it' hit'
    obtain rfl := List.mem_singleton.mp hit'
    exact hid

/-- **Twenty sound titles are a safe strip.** -/
theorem Sound.strip (h : Sound ctx items) (source : String) :
    SafeStrip ctx source (items.take targetCount) := by
  have htake := h.sublist (List.take_sublist targetCount items)
  refine ⟨List.length_take_le .., htake.nodup, fun it hit => (htake.safe it hit).1, ?_,
    fun _ it hit => (htake.safe it hit).2⟩
  exact fun it hit => fullTitleSafe_of_titleSafe (htake.safe it hit).2

theorem Sound.householdSafe (h : (items.map Item.id).Nodup) : Sound ctx (ctx.householdSafe items) :=
  ⟨h.sublist (List.filter_sublist.map _), fun it hit => by
    rw [Ctx.householdSafe, List.mem_filter, Bool.and_eq_true] at hit
    exact hit.2⟩

theorem names_fill (provenance : String) (items : List Item) :
    (items.map (Item.fill provenance)).map Item.name = items.map Item.name := by
  rw [List.map_map]
  rfl

theorem sound_trending (ctx : Ctx) (configured : Bool) (fetch : Fetch) :
    Sound ctx (ctx.trending configured fetch) :=
  (Sound.householdSafe (trending configured fetch).nodup).of_names (names_fill _ _)

end Sound

/-! ### The validator -/

section Validator

variable {ctx : Ctx}

/-- **What a pass keeps**: it accepts sound titles, and has seen them. -/
structure Kept (ctx : Ctx) (accepted : List Item) (seen : List ℤ) : Prop where
  sound : Sound ctx accepted
  seen : ∀ it ∈ accepted, it.id ∈ seen

theorem Kept.accept {accepted : List Item} {seen : List ℤ} (h : Kept ctx accepted seen)
    {it it' : Item} (hname : it'.name = it.name) (hnew : it.id ∉ seen)
    (hid : ctx.idSafe it = true) (htitle : ctx.titleSafe it = true) :
    Kept ctx (accepted ++ [it']) (it.id :: seen) where
  sound := by
    have hid' : it'.id = it.id := congrArg Prod.fst hname
    refine h.sound.concat ?_ ((idSafe_congr hname).trans hid) ((titleSafe_congr hname).trans htitle)
    intro hmem
    obtain ⟨other, hother, heq⟩ := List.mem_map.mp hmem
    exact hnew (hid' ▸ heq ▸ h.seen other hother)
  seen other hother := by
    rcases List.mem_append.mp hother with hother | hother
    · exact List.mem_cons_of_mem _ (h.seen other hother)
    · obtain rfl := List.mem_singleton.mp hother
      exact List.mem_cons.mpr (.inl (congrArg Prod.fst hname))

theorem mem_of_poolItem {pool : List Item} {p : Pick} {it : Item}
    (h : poolItem pool p = some it) : it ∈ pool := by
  simp only [poolItem] at h
  split at h
  · exact List.mem_of_mem_filter (List.mem_of_find?_eq_some h)
  · split at h
    · next hnamed =>
      obtain rfl := Option.some.inj h
      exact List.mem_of_mem_filter (hnamed ▸ List.mem_singleton_self _)
    · cases h

theorem kept_screen {pool : List Item}
    (hpool : ∀ it ∈ pool, ctx.idSafe it = true ∧ ctx.titleSafe it = true) :
    ∀ (picks : List Pick) (s : Pass), Kept ctx s.v.accepted s.seen →
      Kept ctx (screen ctx pool s picks).v.accepted (screen ctx pool s picks).seen
  | [], _, h => h
  | p :: ps, s, h => by
    rw [screen]
    split
    · exact kept_screen hpool ps _ h
    · split
      · exact kept_screen hpool ps _ h
      · split
        · exact kept_screen hpool ps _ h
        · next it hit =>
          split
          · exact kept_screen hpool ps _ h
          · next hnew =>
            obtain ⟨hid, htitle⟩ := hpool it (mem_of_poolItem hit)
            have haccept : Kept ctx (s.v.accepted ++ [it.personalized p]) (it.id :: s.seen) :=
              h.accept rfl hnew hid htitle
            dsimp only
            split
            · exact haccept
            · exact kept_screen hpool ps _ haccept

theorem sound_verify (print : JsonTree → String) : ∀ (found : List (Pick × Option Item))
    (v : Validated) (seen : List ℤ), Kept ctx v.accepted seen →
      Sound ctx (verify print ctx (v, seen) found).accepted
  | [], _, _, h => h.sound
  | (p, r) :: rest, v, seen, h => by
    rw [verify.eq_def]
    dsimp only
    split
    · exact h.sound
    · rcases r with _ | r
      · exact sound_verify print rest _ seen h
      · dsimp only
        split
        · exact sound_verify print rest _ seen h
        · split
          · exact sound_verify print rest _ seen h
          · next hnew =>
            split
            · exact sound_verify print rest _ seen h
            · next hrejected =>
              split
              · exact sound_verify print rest _ seen h
              · next howned =>
                rw [Bool.or_eq_true, not_or, decide_eq_true_eq, Bool.not_eq_true] at hrejected
                rw [Bool.or_eq_true, not_or, decide_eq_true_eq, Bool.not_eq_true] at howned
                refine sound_verify print rest _ _ (h.accept rfl hnew ?_ ?_)
                · simp [Ctx.idSafe, hrejected.1, howned.1]
                · simp [Ctx.titleSafe, hrejected.2, howned.2]

/-- **What the validator accepts is sound.** -/
theorem sound_validate (print : JsonTree → String) (configured : Bool) {pool : List Item}
    (hpool : ∀ it ∈ pool, ctx.idSafe it = true ∧ ctx.titleSafe it = true) (lookups : ℕ → Lookup)
    (picks : List Pick) :
    Sound ctx (validate print ctx configured pool lookups picks).accepted := by
  have hscreen := kept_screen hpool picks ⟨.start, [], []⟩ ⟨Sound.nil, fun _ h => by cases h⟩
  simp only [validate]
  split
  · exact hscreen.sound
  · exact sound_verify print _ _ _ hscreen

theorem Sound.merge : ∀ {more accepted : List Item}, Sound ctx accepted → Sound ctx more →
    Sound ctx (mergeAccepted accepted more)
  | [], _, h, _ => h
  | it :: rest, accepted, h, hmore => by
    have hrest : Sound ctx rest := hmore.sublist (List.sublist_cons_self it rest)
    rw [mergeAccepted]
    split
    · exact h.merge hrest
    · next hnew =>
      obtain ⟨hid, htitle⟩ := hmore.safe it List.mem_cons_self
      have hconcat := h.concat hnew hid htitle
      dsimp only
      split
      · exact hconcat
      · exact hconcat.merge hrest

end Validator

/-! ### The paths -/

section Paths

variable {cfg : Config} {w : World} {ctx : Ctx}

theorem names_tag (hit : ℕ → Item → Bool) (label : String) (items : List Item) :
    (tag hit label items).map Item.name = items.map Item.name := by
  refine List.ext_getElem (by simp [tag]) fun i _ _ => ?_
  simp only [tag, List.getElem_map, List.getElem_mapIdx]
  split
  · rfl
  · rfl

theorem names_tagIptv (disabled : Bool) (linked : Option (List ℤ)) (items : List Item) :
    (tagIptv disabled linked items).map Item.name = items.map Item.name := by
  rw [tagIptv.eq_def]
  split
  · rfl
  · split
    · rfl
    · split
      · rfl
      · exact names_tag ..

theorem names_tagLocal (useMediaCore : Bool) (rows : Option (List MediaRow)) (items : List Item) :
    (tagLocal useMediaCore rows items).map Item.name = items.map Item.name := by
  rw [tagLocal.eq_def]
  split
  · rfl
  · split
    · rfl
    · exact names_tag ..

theorem safe_trendingStrip (source : String) :
    SafeStrip ctx source (trendingStrip cfg w ctx) :=
  ((sound_trending ctx _ _).strip source).of_names (names_tagIptv ..)

theorem sound_fill {accepted : List Item} (h : Sound ctx accepted) (genres : List ℤ) :
    Sound ctx (accepted ++ fill cfg w ctx genres accepted) := by
  have hdiscover : ∀ items : List Item, (items.map Item.id).Nodup →
      Sound ctx (accepted ++ ((ctx.householdSafe items).filter
        fun it => it.id ∉ accepted.map Item.id).map (Item.fill "discover")) := by
    intro items hitems
    refine h.append (((Sound.householdSafe hitems).sublist List.filter_sublist).of_names
      (names_fill ..)) ?_
    intro filled hfilled
    obtain ⟨it, hit, rfl⟩ := List.mem_map.mp hfilled
    have hnew := (List.mem_filter.mp hit).2
    rw [decide_eq_true_eq] at hnew
    exact hnew
  have hboth : ∀ discover : List Item, Sound ctx (accepted ++ discover) →
      Sound ctx (accepted ++ if accepted.length + discover.length < targetCount then
        discover ++ (ctx.trending cfg.tmdbConfigured w.trending).filter
          fun it => it.id ∉ accepted.map Item.id ++ discover.map Item.id
        else discover) := by
    intro discover hd
    split
    · rw [← List.append_assoc]
      refine hd.append ((sound_trending ctx _ _).sublist List.filter_sublist) fun it hit => ?_
      rw [List.map_append]
      simpa only [decide_eq_true_eq] using (List.mem_filter.mp hit).2
    · exact hd
  simp only [fill]
  split
  · exact hboth [] (by rwa [List.append_nil])
  · exact hboth _ (hdiscover _ (candidatePool ..).nodup)

theorem sound_accept (print : JsonTree → String) {pool : List Item}
    (hpool : ∀ it ∈ pool, ctx.idSafe it = true ∧ ctx.titleSafe it = true) (r : ClaudeResponse) :
    Sound ctx (accept print cfg w ctx pool r) := by
  have hfirst := sound_validate print cfg.tmdbConfigured hpool w.lookups r.picks
  simp only [accept]
  split
  · split
    · exact hfirst.merge (sound_validate print cfg.tmdbConfigured hpool w.retryLookups _)
    · exact hfirst
  · exact hfirst

/-- **The model's path is safe.** -/
theorem safe_claudePath (print : JsonTree → String) : (claudePath print cfg w ctx).Safe ctx := by
  have hpool : ∀ items : List Item, (items.map Item.id).Nodup →
      ∀ it ∈ w.shuffle (ctx.householdSafe items), ctx.idSafe it = true ∧ ctx.titleSafe it = true :=
    fun items hitems it hit =>
      (Sound.householdSafe hitems).safe it ((w.shuffle_perm _).mem_iff.mp hit)
  rw [claudePath]
  split
  · trivial
  · split
    · exact safe_trendingStrip _
    · split
      · trivial
      · trivial
      · split
        · dsimp only
          split
          · exact safe_trendingStrip _
          · next r _ =>
            have haccept : Sound ctx (accept print cfg w ctx _ r) :=
              sound_accept print (hpool _ (candidatePool cfg.tmdbConfigured
                (genreIds ctx.kind (topGenreNames ctx.library 5)) w.today w.pool).nodup) r
            split
            · exact ((sound_fill haccept _).strip _).of_names (names_tagIptv ..)
            · exact (haccept.strip _).of_names (names_tagIptv ..)
        · trivial

/-- **The recommender's path is safe exactly when no row repeats a title.** -/
theorem safe_recommenderPath_iff (print : JsonTree → String) (hreadable : w.feedbackReadable) :
    (recommenderPath print cfg w ctx).Safe ctx ↔
      ¬ Repeats (ctx.shown print) Item.id targetCount (w.scored.getD []) := by
  have hshown : ctx.scoredSafe print (w.scored.getD []) =
      (w.scored.getD []).filterMap (ctx.shown print) := by
    rw [Ctx.scoredSafe, Ctx.recommenderSafe, List.filter_filterMap]
    rfl
  rw [← nodup_take_iff, ← hshown, recommenderPath, if_pos hreadable]
  split
  · next hempty =>
    refine iff_of_true ?_ (by rw [hempty]; exact List.nodup_nil)
    split
    · exact safe_trendingStrip _
    · have hnil : Sound ctx [] := Sound.nil
      exact hnil.strip _
  · next safe hne =>
    have hnames : (tagLocal cfg.useMediaCore w.media (tagIptv cfg.iptvDisabled w.linked
        ((ctx.scoredSafe print (w.scored.getD [])).take targetCount))).map Item.name =
        ((ctx.scoredSafe print (w.scored.getD [])).take targetCount).map Item.name :=
      (names_tagLocal ..).trans (names_tagIptv ..)
    have hsafe : ∀ it ∈ (ctx.scoredSafe print (w.scored.getD [])).take targetCount,
        ctx.idSafe it = true ∧ ctx.fullTitleSafe it = true := by
      intro it hit
      have hmem := List.mem_of_mem_take hit
      rw [Ctx.scoredSafe, Ctx.recommenderSafe, List.mem_filter, Bool.and_eq_true] at hmem
      exact hmem.2
    constructor
    · intro h
      exact ids_eq_of_names hnames ▸ h.nodup
    · intro h
      exact SafeStrip.of_names ⟨List.length_take_le .., h, fun it hit => (hsafe it hit).1,
        fun it hit => (hsafe it hit).2, fun hsource => absurd rfl hsource⟩ hnames

end Paths

/-! ### Every request -/

/-- **A strip is safe exactly when it does not come from a reply of the recommender that has a title
twice.** -/
theorem served_iff (cfg : Config) (w : World) (q : Request) :
    Served print cfg w q ↔ Fair print cfg w q := by
  refine forall₂_congr fun ctx hctx => ?_
  simp only [suggestions, hctx]
  rcases hforce : q.forcesTrending cfg with _ | _
  · rcases hrecommender : cfg.useLocalRecommender with _ | _
    · exact iff_of_true (safe_claudePath print) fun _ h => by cases h
    · rcases hreadable : w.feedbackReadable with _ | _
      · refine iff_of_true ?_ fun _ _ h => by cases h
        simp only [recommenderPath, hreadable]
        trivial
      · exact (safe_recommenderPath_iff print hreadable).trans
          ⟨fun h _ _ _ => h, fun h => h rfl rfl rfl⟩
  · exact iff_of_true (safe_trendingStrip _) fun h => by cases h

/-! ### A reply with a title twice -/

def scoredRow (id : ℤ) : JsonTree := .obj [("tmdb_id", .int id)]

/-- A household without a library, whose recommender answers with one film two times. -/
def twiceWorld : World where
  library := some []
  rejections := some []
  feedbackReadable := true
  apiKey := some none
  trending := .pages []
  pool := .pages []
  fillPool := .pages []
  today := ""
  shuffle := id
  shuffle_perm _ := .refl _
  scored := some [scoredRow 603, scoredRow 603]
  claude := (none, none)
  claudeRetry := (none, none)
  lookups _ := .cached none
  retryLookups _ := .cached none
  linked := none
  media := none

/-- The recommender ranks, and there is no TMDB. -/
def recommenderConfig : Config := ⟨none, none, true, true, false⟩

/-- **A film is shown twice.** -/
theorem not_served_twice :
    ¬ Served (fun _ => "") recommenderConfig twiceWorld ⟨"movie", none⟩ := by
  intro h
  have hstrip := h (Ctx.new .movie [] []) rfl
  exact absurd hstrip.nodup (by decide)

end EmeraldExchange.Gateway.Suggestions
