import EmeraldExchange.Gateway.JsNumber
import EmeraldExchange.Gateway.TitleMatch

/-!
# The suggestion strip

A member is shown a strip of titles that the household does not have and has not rejected. They are
this week's trending titles, or the picks of the recommender, or those of a model that a validator
checks, once more after a retry, with discovered and trending titles to fill up. A title counts as
owned or rejected by its identifier or by its name (`Gateway.titleMatches`).

What the services answer is arbitrary here, and so are the lists that an earlier request has left in
a cache, except that such a list has each title once. Prompts, costs and diagnostics are left out.
-/

namespace EmeraldExchange.Gateway.Suggestions

open Auth Words

/-! ### Items -/

def targetCount : ℕ := 20

/-- In smaller libraries the genre mix is noise. -/
def coldStartThreshold : ℕ := 10

/-- **A card.** Of the fields that may be left out, some null is null. -/
structure Item where
  id : ℤ
  title : String
  posterPath : Option JsonTree
  overview : Option JsonTree
  year : Option ℤ
  provenance : Option JsonTree
  reason : Option JsonTree
  availableOn : Option (List String)

def Item.fill (provenance : String) (it : Item) : Item :=
  { it with provenance := some (.str provenance), reason := some .null }

structure LibItem where
  title : Option String
  tmdbId : Option ℤ
  genres : List String

def LibItem.fromValue (v : JsonTree) : LibItem where
  title := (v.get "title").bind JsonTree.asStr
  tmdbId := (v.get "tmdbId").bind JsonTree.asI64
  genres := (((v.get "genres").bind JsonTree.asArray).getD []).filterMap JsonTree.asStr

/-! ### Genres -/

/-- Genres with their numbers of titles, the most frequent first and, of those that are as frequent,
the one that was seen first. -/
def genreCounts (library : List LibItem) : List (String × ℕ) :=
  let genres := library.flatMap fun it => it.genres.filter (· ≠ "")
  (genres.eraseDups.map fun g => (g, genres.count g)).mergeSort fun a b => b.2 ≤ a.2

def topGenreNames (library : List LibItem) (n : ℕ) : List String :=
  ((genreCounts library).take n).map Prod.fst

def movieGenres : List (String × ℤ) :=
  [("action", 28), ("adventure", 12), ("animation", 16), ("comedy", 35), ("crime", 80),
    ("documentary", 99), ("drama", 18), ("family", 10751), ("fantasy", 14), ("history", 36),
    ("horror", 27), ("music", 10402), ("musical", 10402), ("mystery", 9648), ("romance", 10749),
    ("science fiction", 878), ("sci-fi", 878), ("sci-fi & fantasy", 878), ("thriller", 53),
    ("war", 10752), ("western", 37), ("biography", 36), ("sport", 99)]

def tvGenres : List (String × ℤ) :=
  [("action", 10759), ("adventure", 10759), ("action & adventure", 10759), ("animation", 16),
    ("anime", 16), ("comedy", 35), ("crime", 80), ("documentary", 99), ("drama", 18),
    ("history", 18), ("family", 10751), ("fantasy", 10765), ("science fiction", 10765),
    ("sci-fi", 10765), ("sci-fi & fantasy", 10765), ("horror", 9648), ("mystery", 9648),
    ("thriller", 9648), ("kids", 10762), ("news", 10763), ("reality", 10764), ("soap", 10766),
    ("talk", 10767), ("war", 10768), ("war & politics", 10768), ("western", 37),
    ("romance", 10749)]

def genreId : Kind → String → Option ℤ
  | .movie, name => movieGenres.lookup name
  | .tv, name => tvGenres.lookup name

/-- The identifiers of some genres; unknown names drop. -/
def genreIds (kind : Kind) (names : List String) : List ℤ :=
  (names.filterMap fun n =>
    genreId kind (String.ofList (trimMatches jsSpace (toLowercase n.toList)))).eraseDups

/-! ### Lists of TMDB -/

/-- A reply; a body that is not JSON is null. -/
structure Reply where
  status : ℕ
  body : JsonTree

def isSuccess (status : ℕ) : Bool := 200 ≤ status && status < 300

/-- A field that is a text, unless it is empty. -/
def text (row : JsonTree) (key : String) : Option String :=
  ((row.get key).bind JsonTree.asStr).filter (· ≠ "")

def date (row : JsonTree) : String :=
  ((text row "release_date").or (text row "first_air_date")).getD ""

/-- A float as an integer, at the bound where it is beyond. -/
def clampI64 (z : ℤ) : ℤ := max (-2 ^ 63) (min z (2 ^ 63 - 1))

def yearOf (date : String) : Option ℤ :=
  if date = "" then none
  else
    match jsStrNumber (String.ofList (jsSlice 4 date.toList)) with
    | .finite q => if q.isInt then some (clampI64 q.num) else none
    | _ => none

def item (row : JsonTree) (id : ℤ) (title : String) : Item where
  id := id
  title := title
  posterPath := row.get "poster_path"
  overview := row.get "overview"
  year := yearOf (date row)
  provenance := none
  reason := none
  availableOn := none

/-- The rows of a page, if it has not failed. -/
def results (reply : Option Reply) : Option (List JsonTree) := do
  let r ← reply
  if isSuccess r.status then
    match r.body.get "results" with
    | some (.arr rows) => some rows
    | none | some .null =>
      match r.body with
      | .null => none
      | _ => some []
    | _ => none
  else none

/-- **Rows in order, the first of each identifier kept**, unless it is released after `today`. -/
def dedupe (today : Option String) : List ℤ → List JsonTree → List Item
  | _, [] => []
  | seen, r :: rows =>
    match ((r.get "id").bind JsonTree.asI64).filter (· ≠ 0) with
    | none => dedupe today seen rows
    | some id =>
      if id ∈ seen then dedupe today seen rows
      else if today.any fun today => date r ≠ "" && today < date r then
        dedupe today (id :: seen) rows
      else
        item r id (((text r "title").or (text r "name")).getD "") ::
          dedupe today (id :: seen) rows

theorem dedupe_not_seen {today : Option String} : ∀ {seen : List ℤ} {rows : List JsonTree}
    {it : Item}, it ∈ dedupe today seen rows → it.id ∉ seen
  | seen, [], it, h => by cases h
  | seen, r :: rows, it, h => by
    rw [dedupe] at h
    split at h
    · exact dedupe_not_seen h
    · next id _ =>
      split at h
      · exact dedupe_not_seen h
      · next hid =>
        have htail : it ∈ dedupe today (id :: seen) rows → it.id ∉ seen := fun h hmem =>
          dedupe_not_seen h (List.mem_cons_of_mem _ hmem)
        split at h
        · exact htail h
        · rcases List.mem_cons.mp h with rfl | h
          · exact hid
          · exact htail h

/-- **Each title is kept once.** -/
theorem nodup_dedupe {today : Option String} : ∀ (seen : List ℤ) (rows : List JsonTree),
    ((dedupe today seen rows).map Item.id).Nodup
  | _, [] => List.nodup_nil
  | seen, r :: rows => by
    rw [dedupe]
    split
    · exact nodup_dedupe seen rows
    · next id _ =>
      split
      · exact nodup_dedupe seen rows
      · split
        · exact nodup_dedupe (id :: seen) rows
        · rw [List.map_cons, List.nodup_cons]
          refine ⟨fun hmem => ?_, nodup_dedupe (id :: seen) rows⟩
          obtain ⟨it, hit, heq⟩ := List.mem_map.mp hmem
          exact dedupe_not_seen hit (heq ▸ List.mem_cons_self)

structure Listing where
  items : List Item
  nodup : (items.map Item.id).Nodup

/-- Where a list comes from: the cache of an earlier request, or pages, those that have failed
among them. -/
inductive Fetch
  | cached (listing : Listing)
  | pages (replies : List (Option Reply))

def Fetch.listing (today : Option String) : Fetch → Listing
  | .cached listing => listing
  | .pages replies => ⟨dedupe today [] (replies.filterMap results).flatten, nodup_dedupe _ _⟩

def Listing.empty : Listing := ⟨[], List.nodup_nil⟩

def trending (configured : Bool) (fetch : Fetch) : Listing :=
  if configured then fetch.listing none else .empty

/-- The titles of some genres that are released by today. -/
def candidatePool (configured : Bool) (genres : List ℤ) (today : String) (fetch : Fetch) :
    Listing :=
  if configured && genres ≠ [] then fetch.listing (some today) else .empty

/-! ### Looking a pick up -/

/-- The first hit of a search; none in place of all hits where the reply is not JSON. -/
def topHit : Option Reply → Option (Option JsonTree)
  | none => some none
  | some r =>
    if isSuccess r.status then
      match r.body with
      | .null => none
      | body =>
        some (match ((body.get "results").bind JsonTree.asArray).bind List.head? with
          | some (.obj ms) => some (.obj ms)
          | _ => none)
    else some none

/-- The first hit, with the year as a hint first and then without. -/
def search (title : String) (year : JsonTree) (withYear without : Option Reply) : Option Item := do
  let top ← topHit withYear
  let top ← if top.isNone && truthy year then topHit without else some top
  let top ← top
  let id ← (top.get "id").bind JsonTree.asI64
  some (item top id (((text top "title").or (text top "name")).getD title))

/-- Where a lookup is answered: in the cache, or by a search. -/
inductive Lookup
  | cached (item : Option Item)
  | searched (withYear without : Option Reply)

def lookup (configured : Bool) (title : String) (year : JsonTree) : Lookup → Option Item
  | .cached item => if configured then item else none
  | .searched withYear without =>
    if configured then search title year withYear without else none

/-! ### The model -/

structure Pick where
  title : String
  year : JsonTree
  reason : JsonTree

/-- The tool call, which a retry sends back. -/
structure ToolUse where
  id : JsonTree
  name : JsonTree
  input : JsonTree

structure ClaudeResponse where
  toolUse : Option ToolUse
  picks : List Pick

def readPick (p : JsonTree) : Option Pick := do
  let title ← (p.get "title").bind JsonTree.asStr
  if jsTrim title = "" then none else some ⟨title, p.index "year", p.index "reason"⟩

def readToolUse (resp : JsonTree) : Option ClaudeResponse := do
  let content ← (resp.get "content").bind JsonTree.asArray
  match content.find? fun b => (b.index "type").asStr = some "tool_use" with
  | none => some ⟨none, []⟩
  | some tu =>
    let input := tu.index "input"
    let picks := ((input.index "picks").asArray.getD []).filterMap readPick
    some ⟨some ⟨tu.index "id", tu.index "name", input⟩, picks⟩

/-- A call that was answered, with the JSON of its body if it is any, or was not. -/
abbrev Answer := Option (ℕ × Option JsonTree)

/-- One attempt; what failed with a status says so. -/
def send : Answer → Except (Option ℕ) ClaudeResponse
  | none => .error none
  | some (status, body) =>
    if isSuccess status then
      match body.bind readToolUse with
      | none => .error none
      | some r => .ok r
    else .error (some status)

/-- An attempt, and another one where the model is overloaded. -/
def call (attempts : Answer × Answer) : Except (Option ℕ) ClaudeResponse :=
  match send attempts.1 with
  | .error (some status) =>
    if status = 529 ∨ status = 503 then send attempts.2 else .error (some status)
  | other => other

/-! ### The household -/

/-- **What a strip is held against**: what is rejected and owned, by identifier and by title. -/
structure Ctx where
  kind : Kind
  library : List LibItem
  rejectedIds : Finset ℤ
  libraryIds : Finset ℤ
  rejectedTitles : Finset String
  libraryTitles : Finset String
  libraryTitlesFull : Finset String
  full_subset : libraryTitlesFull ⊆ libraryTitles

def Ctx.new (kind : Kind) (library : List LibItem) (rejections : List IdTitle) : Ctx where
  kind := kind
  library := library
  rejectedIds := ((rejections.filter fun r => r.id < 2 ^ 63).map fun r => (r.id : ℤ)).toFinset
  libraryIds := (library.filterMap LibItem.tmdbId).toFinset
  rejectedTitles := titleSet (rejections.map IdTitle.title) false
  libraryTitles := titleSet (library.map fun l => l.title.getD "") true
  libraryTitlesFull := titleSet (library.map fun l => l.title.getD "") false
  full_subset := titleSet_subset _

/-- Neither rejected nor owned, by the identifier. -/
def Ctx.idSafe (ctx : Ctx) (it : Item) : Bool :=
  it.id ∉ ctx.rejectedIds && it.id ∉ ctx.libraryIds

/-- Neither rejected nor owned, by the title. -/
def Ctx.titleSafe (ctx : Ctx) (it : Item) : Bool :=
  !titleMatches it.title ctx.rejectedTitles && !titleMatches it.title ctx.libraryTitles

/-- Neither rejected nor owned, by the whole title: without its subtitle, one film of a series would
stand for all of them. -/
def Ctx.fullTitleSafe (ctx : Ctx) (it : Item) : Bool :=
  normalizeTitle it.title ∉ ctx.rejectedTitles && normalizeTitle it.title ∉ ctx.libraryTitlesFull

def Ctx.householdSafe (ctx : Ctx) (items : List Item) : List Item :=
  items.filter fun it => ctx.idSafe it && ctx.titleSafe it

def Ctx.recommenderSafe (ctx : Ctx) (items : List Item) : List Item :=
  items.filter fun it => ctx.idSafe it && ctx.fullTitleSafe it

def Ctx.trending (ctx : Ctx) (configured : Bool) (fetch : Fetch) : List Item :=
  (ctx.householdSafe (Suggestions.trending configured fetch).items).map (Item.fill "trending")

/-! ### The validator -/

structure Counters where
  lookupNulls : ℕ
  droppedAsDedupe : ℕ
  droppedAsRejected : ℕ
  droppedAsLibrary : ℕ
  droppedAsYearMismatch : ℕ
  poolHits : ℕ

inductive Drop
  | lookupNull | dedupe | rejected | library | yearMismatch

def Counters.count (c : Counters) : Drop → Counters
  | .lookupNull => { c with lookupNulls := c.lookupNulls + 1 }
  | .dedupe => { c with droppedAsDedupe := c.droppedAsDedupe + 1 }
  | .rejected => { c with droppedAsRejected := c.droppedAsRejected + 1 }
  | .library => { c with droppedAsLibrary := c.droppedAsLibrary + 1 }
  | .yearMismatch => { c with droppedAsYearMismatch := c.droppedAsYearMismatch + 1 }

/-- The picks that are accepted, and those that are not with the reason that a retry gives. -/
structure Validated where
  accepted : List Item
  rejected : List (String × String)
  counters : Counters

def Validated.start : Validated := ⟨[], [], ⟨0, 0, 0, 0, 0, 0⟩⟩

def Validated.drop (v : Validated) (d : Drop) (title why : String) : Validated :=
  { v with rejected := v.rejected ++ [(title, why)], counters := v.counters.count d }

def duplicatePick : String := "duplicate of an earlier pick in this batch"

/-- The trimmed reason of a pick, at most 120 UTF-16 units. -/
def reasonOf (p : Pick) : JsonTree :=
  match p.reason.asStr.map jsTrim with
  | some r => if r = "" then .null else .str (String.ofList (jsSlice 120 r.toList))
  | none => .null

def Item.personalized (it : Item) (p : Pick) : Item :=
  { it with provenance := some (.str "personalized"), reason := some (reasonOf p) }

/-- The title of the pool that a pick names: of its year, or the only one without a year. -/
def poolItem (pool : List Item) (p : Pick) : Option Item :=
  let named := pool.filter fun it => normalizeTitle it.title = normalizeTitle p.title
  if truthy p.year then named.find? fun it => it.year.any fun y => asF64 p.year = some (.ofRat y)
  else
    match named with
    | [it] => some it
    | _ => none

/-- A pass over the picks: what is accepted, what is left to be looked up, and the identifiers that
have been seen. -/
structure Pass where
  v : Validated
  survivors : List Pick
  seen : List ℤ

/-- **Titles, then the pool**: owned and rejected titles cost no lookup, nor do those of the
pool. -/
def screen (ctx : Ctx) (pool : List Item) : Pass → List Pick → Pass
  | s, [] => s
  | s, p :: ps =>
    if titleMatches p.title ctx.rejectedTitles then
      let v := s.v.drop .rejected p.title "on the household NEVER SUGGEST list (matched by title)"
      screen ctx pool { s with v } ps
    else if titleMatches p.title ctx.libraryTitles then
      let v := s.v.drop .library p.title "already in the household library (matched by title)"
      screen ctx pool { s with v } ps
    else
      match poolItem pool p with
      | none => screen ctx pool { s with survivors := s.survivors ++ [p] } ps
      | some it =>
        if it.id ∈ s.seen then
          screen ctx pool { s with v := s.v.drop .dedupe p.title duplicatePick } ps
        else
          let accepted := s.v.accepted ++ [it.personalized p]
          let counters := { s.v.counters with poolHits := s.v.counters.poolHits + 1 }
          let s := { s with v := { s.v with accepted, counters }, seen := it.id :: s.seen }
          if targetCount ≤ accepted.length then s else screen ctx pool s ps

variable (print : JsonTree → String)

/-- A value as a text; `print` writes those that are none. -/
def jsString : JsonTree → String
  | .str s => s
  | v => print v

/-- A movie of another year than the pick asks for, by more than five. -/
def otherYear (ctx : Ctx) (p : Pick) (r : Item) : Option ℤ :=
  (r.year.filter (· ≠ 0)).filter fun ry =>
    ctx.kind = .movie && truthy p.year &&
      ((Binary64.ofRat ry).sub (jsNumber p.year)).exceeds 5

/-- **What the lookups have found.** -/
def verify (ctx : Ctx) : Validated × List ℤ → List (Pick × Option Item) → Validated
  | (v, _), [] => v
  | (v, seen), (p, r) :: rest =>
    if targetCount ≤ v.accepted.length then v
    else
      match r with
      | none =>
        verify ctx (v.drop .lookupNull p.title
          "TMDB lookup failed — title may be misspelled", seen) rest
      | some r =>
        match otherYear ctx p r with
        | some ry =>
          let why := "TMDB top match was \"" ++ r.title ++ "\" (" ++ toString ry ++
            "), but you asked for " ++ jsString print p.year ++
            " — likely a different work; pick a closer title or use the exact year"
          verify ctx (v.drop .yearMismatch p.title why, seen) rest
        | none =>
          if r.id ∈ seen then verify ctx (v.drop .dedupe p.title duplicatePick, seen) rest
          else if r.id ∈ ctx.rejectedIds || titleMatches r.title ctx.rejectedTitles then
            verify ctx (v.drop .rejected p.title "on the household NEVER SUGGEST list", seen) rest
          else if r.id ∈ ctx.libraryIds || titleMatches r.title ctx.libraryTitles then
            verify ctx (v.drop .library p.title "already in the household library", seen) rest
          else
            let accepted := v.accepted ++ [r.personalized p]
            verify ctx ({ v with accepted }, r.id :: seen) rest

/-- **Validate picks**: the titles and the pool first, then the lookups of what is left, of which
`lookups` has the answers in their order. -/
def validate (ctx : Ctx) (configured : Bool) (pool : List Item) (lookups : ℕ → Lookup)
    (picks : List Pick) : Validated :=
  let s := screen ctx pool ⟨.start, [], []⟩ picks
  if targetCount ≤ s.v.accepted.length then s.v
  else
    verify print ctx (s.v, s.seen) (s.survivors.zipIdx.map fun (p, n) =>
      (p, lookup configured p.title p.year (lookups n)))

/-- The items of a retry, up to the length of the strip. -/
def mergeAccepted : List Item → List Item → List Item
  | accepted, [] => accepted
  | accepted, it :: rest =>
    if it.id ∈ accepted.map Item.id then mergeAccepted accepted rest
    else
      let accepted := accepted ++ [it]
      if targetCount ≤ accepted.length then accepted else mergeAccepted accepted rest

/-! ### Where a title can be watched -/

def Item.label (label : String) (it : Item) : Item :=
  let on := it.availableOn.getD []
  { it with availableOn := some (if label ∈ on then on else on ++ [label]) }

def tag (hit : ℕ → Item → Bool) (label : String) (items : List Item) : List Item :=
  items.mapIdx fun i it => if hit i it then it.label label else it

/-- The titles that live television has, where its service tells. -/
def tagIptv (disabled : Bool) (linked : Option (List ℤ)) (items : List Item) : List Item :=
  if items = [] || disabled then items
  else
    match linked with
    | none => items
    | some linked => if linked = [] then items else tag (fun _ it => it.id ∈ linked) "iptv" items

structure MediaRow where
  tmdbId : Option ℤ
  title : Option String
  year : Option ℤ

/-- A normalized title that is long enough to tell titles apart, and a year. -/
def titleKey (title : String) (year : ℤ) : Option (String × ℤ) :=
  if 5 ≤ (normalizeTitle title).length then some (normalizeTitle title, year) else none

/-- On disk: by the identifier, or by the title and the year. -/
def localHit (rows : List MediaRow) (it : Item) : Bool :=
  let keys := rows.filterMap fun r => do titleKey (← r.title) (← r.year)
  it.id ∈ rows.filterMap MediaRow.tmdbId ||
    ((it.year.bind (titleKey it.title)).any fun key => key ∈ keys)

/-- The titles that are on disk, where the media library can be read. -/
def tagLocal (useMediaCore : Bool) (rows : Option (List MediaRow)) (items : List Item) :
    List Item :=
  if !useMediaCore || items = [] then items
  else
    match rows with
    | none => items
    | some rows => tag (fun _ it => localHit rows it) "local" items

/-! ### The route -/

structure Config where
  tmdbReadAccessToken : Option String
  tmdbApiKey : Option String
  useLocalRecommender : Bool
  iptvDisabled : Bool
  useMediaCore : Bool

def Config.tmdbConfigured (c : Config) : Bool := c.tmdbReadAccessToken.isSome || c.tmdbApiKey.isSome

/-- A request: the path segment, and the first `force` of the query. -/
structure Request where
  kind : String
  force : Option String

def Kind.parse : String → Option Kind
  | "movie" => some .movie
  | "tv" => some .tv
  | _ => none

/-- **What a request finds**: the stores, the services, and chance, which shuffles the pool. -/
structure World where
  /-- The rows of the library, as they are or as they were last, if there are any. -/
  library : Option (List JsonTree)
  /-- The rejections of the kind, if the store can be read. -/
  rejections : Option (List IdTitle)
  feedbackReadable : Bool
  /-- The member's key, if there is one and if the store can be read. -/
  apiKey : Option (Option String)
  trending : Fetch
  pool : Fetch
  fillPool : Fetch
  today : String
  shuffle : List Item → List Item
  shuffle_perm : ∀ items, (shuffle items).Perm items
  /-- The items of the recommender's reply, if it could be read. -/
  scored : Option (List JsonTree)
  claude : Answer × Answer
  claudeRetry : Answer × Answer
  lookups : ℕ → Lookup
  retryLookups : ℕ → Lookup
  linked : Option (List ℤ)
  media : Option (List MediaRow)

/-- **A response**: an error, or a strip and the path it comes from. -/
inductive Response
  | error (status : ℕ) (code : String)
  | strip (source : String) (items : List Item)

def trendingStrip (cfg : Config) (w : World) (ctx : Ctx) : List Item :=
  tagIptv cfg.iptvDisabled w.linked
    ((ctx.trending cfg.tmdbConfigured w.trending).take targetCount)

def scoredItem (r : JsonTree) : Option Item := do
  let id ← (r.get "tmdb_id").bind JsonTree.asI64
  some {
    id
    title := match r.get "title" with
      | none | some .null => "?"
      | some t => jsString print t
    posterPath := r.get "poster_path"
    overview := (r.get "overview").filter fun v => match v with
      | .null => false
      | _ => true
    year := (r.get "year").bind JsonTree.asI64
    provenance := r.get "provenance"
    reason := r.get "reason"
    availableOn := none }

def Ctx.scoredSafe (ctx : Ctx) (rows : List JsonTree) : List Item :=
  ctx.recommenderSafe (rows.filterMap (scoredItem print))

/-- **The recommender ranks**; where nothing is left, trending titles are shown. -/
def recommenderPath (cfg : Config) (w : World) (ctx : Ctx) : Response :=
  if w.feedbackReadable then
    match ctx.scoredSafe print (w.scored.getD []) with
    | [] =>
      if cfg.tmdbConfigured then .strip "trending" (trendingStrip cfg w ctx)
      else .strip "recommender" []
    | safe =>
      .strip "recommender" (tagLocal cfg.useMediaCore w.media
        (tagIptv cfg.iptvDisabled w.linked (safe.take targetCount)))
  else .error 500 "internal"

/-- What fills the strip up: discovered titles of the household's genres, then trending ones. -/
def fill (cfg : Config) (w : World) (ctx : Ctx) (genres : List ℤ) (accepted : List Item) :
    List Item :=
  let fillIds := accepted.map Item.id
  let discover := if genres = [] then []
    else ((ctx.householdSafe
      (candidatePool cfg.tmdbConfigured genres w.today w.fillPool).items).filter
        fun it => it.id ∉ fillIds).map (Item.fill "discover")
  if accepted.length + discover.length < targetCount then
    let after := fillIds ++ discover.map Item.id
    discover ++ (ctx.trending cfg.tmdbConfigured w.trending).filter fun it => it.id ∉ after
  else discover

/-- A second pass is made when the model can act on the first one. -/
def retries (r : ClaudeResponse) (v : Validated) : Bool :=
  r.toolUse.isSome && v.accepted.length < targetCount && (v.rejected ≠ [] || r.picks.isEmpty)

def accept (cfg : Config) (w : World) (ctx : Ctx) (pool : List Item) (r : ClaudeResponse) :
    List Item :=
  let v := validate print ctx cfg.tmdbConfigured pool w.lookups r.picks
  if retries r v then
    match call w.claudeRetry with
    | .ok r₂ =>
      mergeAccepted v.accepted
        (validate print ctx cfg.tmdbConfigured pool w.retryLookups r₂.picks).accepted
    | .error _ => v.accepted
  else v.accepted

/-- **The model picks**, where it is asked; its picks are validated and filled up. -/
def claudePath (cfg : Config) (w : World) (ctx : Ctx) : Response :=
  if !cfg.tmdbConfigured then .error 503 "tmdb_not_configured"
  else if ctx.library.length < coldStartThreshold then .strip "trending" (trendingStrip cfg w ctx)
  else
    match w.apiKey.map fun key => key.filter fun key => "sk-ant-".isPrefixOf key with
    | none => .error 500 "internal"
    | some none => .error 402 "api_key_required"
    | some (some _) =>
      if w.feedbackReadable then
        let genres := genreIds ctx.kind (topGenreNames ctx.library 5)
        let pool := w.shuffle (ctx.householdSafe
          (candidatePool cfg.tmdbConfigured genres w.today w.pool).items)
        match call w.claude with
        | .error _ => .strip "trending_fallback" (trendingStrip cfg w ctx)
        | .ok r =>
          let accepted := accept print cfg w ctx pool r
          if accepted.length < targetCount then
            let filled := (accepted ++ fill cfg w ctx genres accepted).take targetCount
            .strip (if accepted = [] then "personalized_empty_trending_fallback"
              else "personalized_filled") (tagIptv cfg.iptvDisabled w.linked filled)
          else
            .strip "personalized"
              (tagIptv cfg.iptvDisabled w.linked (accepted.take targetCount))
      else .error 500 "internal"

/-- An explicit choice of trending titles, which needs TMDB. -/
def Request.forcesTrending (q : Request) (cfg : Config) : Bool :=
  q.force = some "trending" && cfg.tmdbConfigured

/-- What the strip of a request is held against; an error where a store or a service fails. -/
def Request.ctx (w : World) (q : Request) : Except (ℕ × String) Ctx :=
  match Kind.parse q.kind, w.library, w.rejections with
  | none, _, _ => .error (400, "invalid_type")
  | some _, none, _ => .error (502, "library_unavailable")
  | some _, some _, none => .error (500, "internal")
  | some kind, some rows, some rejections =>
    .ok (Ctx.new kind (rows.map LibItem.fromValue) rejections)

/-- **`GET /api/suggestions/{kind}`** -/
def suggestions (cfg : Config) (w : World) (q : Request) : Response :=
  match q.ctx w with
  | .error (status, code) => .error status code
  | .ok ctx =>
    if q.forcesTrending cfg then .strip "trending" (trendingStrip cfg w ctx)
    else if cfg.useLocalRecommender then recommenderPath print cfg w ctx
    else claudePath print cfg w ctx

end EmeraldExchange.Gateway.Suggestions
