import Mathlib.Data.List.Perm.Basic
import Mathlib.Data.Rat.Init
import EmeraldExchange.Lib.Table

/-!
# The sync of the catalog

`run` in `crates/iptv/src/sync.rs`: the lists of the panel are fetched, every listed series is
asked for its episodes, and one transaction writes all of it. Items are upserted, what this run did
not see is deleted by its stamp, and the links to titles are tombstoned and set again.

Channels, films, series and categories are then exactly the listed ones. Two things are only ever
added. An episode that the panel has dropped stays with its series, and a link stays with a title
that is listed without an identifier now. These, and identifiers of episodes that several calls
return, are all that can go wrong (`reconciles_iff`).
-/

namespace EmeraldExchange.Iptv.Catalog

/-! ### Rows -/

inductive Kind
  | live
  | vod
  | series
  deriving DecidableEq

structure CategoryRow where
  categoryId : ℤ
  name : String
  parentId : ℤ
  deriving DecidableEq

structure ChannelRow where
  streamId : ℤ
  num : ℤ
  name : String
  streamIcon : Option String
  epgChannelId : Option String
  categoryId : Option ℤ
  isAdult : ℤ
  tvArchive : ℤ
  tvArchiveDuration : Option ℤ
  addedTs : Option String
  deriving DecidableEq

structure VodRow where
  streamId : ℤ
  name : String
  streamIcon : Option String
  rating : Option ℚ
  categoryId : Option ℤ
  containerExtension : Option String
  addedTs : Option String
  tmdbId : Option ℤ
  year : Option ℤ
  plot : Option String
  director : Option String
  castCsv : Option String
  deriving DecidableEq

structure SeriesRow where
  seriesId : ℤ
  name : String
  cover : Option String
  plot : Option String
  rating : Option ℚ
  categoryId : Option ℤ
  tmdbId : Option ℤ
  lastModified : Option String
  deriving DecidableEq

structure EpisodeRow where
  episodeId : String
  seriesId : ℤ
  season : ℤ
  episodeNum : ℤ
  title : Option String
  containerExtension : Option String
  addedTs : Option String
  plot : Option String
  durationSecs : Option ℤ
  deriving DecidableEq

/-- An episode as the panel lists it, under its season. -/
structure PanelEpisode where
  episodeId : String
  episodeNum : ℤ
  title : Option String
  containerExtension : Option String
  addedTs : Option String
  plot : Option String
  durationSecs : Option ℤ
  deriving DecidableEq

/-- A season, with its episodes if these are a list. -/
structure Season where
  season : ℤ
  episodes : Option (List PanelEpisode)
  deriving DecidableEq

/-- **`parse_series_info`**: the episodes of all seasons. A season whose value is not a list is
skipped. -/
def parseSeriesInfo (seasons : List Season) (seriesId : ℤ) : List EpisodeRow :=
  seasons.flatMap fun s => (s.episodes.getD []).map fun o =>
    { episodeId := o.episodeId, seriesId := seriesId, season := s.season
      episodeNum := o.episodeNum, title := o.title, containerExtension := o.containerExtension
      addedTs := o.addedTs, plot := o.plot, durationSecs := o.durationSecs }

/-! ### Tables -/

structure Stamped (ρ : Type) where
  row : ρ
  fetchedAt : String
  deriving DecidableEq

/-- A stored channel: the guide it shows is no concern of the catalog. -/
structure Channel where
  listed : Stamped ChannelRow
  epgResolvedId : Option String
  deriving DecidableEq

/-- `iptv_kind` -/
inductive LinkKind
  | vod
  | series
  deriving DecidableEq

/-- `tmdb_kind` -/
inductive TmdbKind
  | movie
  | tv
  deriving DecidableEq

def LinkKind.tmdbKind : LinkKind → TmdbKind
  | .vod => .movie
  | .series => .tv

/-- A row of `iptv_title_link`. -/
structure Link where
  tmdbKind : TmdbKind
  tmdbId : ℤ
  removedAt : Option String
  deriving DecidableEq

/-- **The catalog.** -/
structure Db where
  categories : Table (Kind × ℤ) CategoryRow
  channels : Table ℤ Channel
  vod : Table ℤ (Stamped VodRow)
  series : Table ℤ (Stamped SeriesRow)
  episodes : Table String EpisodeRow
  links : Table (LinkKind × ℤ) Link

namespace Db

variable (db : Db)

/-! ### Statements -/

/-- `UPSERT_CATEGORIES` -/
def upsertCategories (kind : Kind) (rows : List CategoryRow) : Db :=
  { db with categories :=
      db.categories.upsertAll (fun r => (kind, r.categoryId)) (fun r _ => r) rows }

/-- `UPSERT_CHANNELS` -/
def upsertChannels (fetchedAt : String) (rows : List ChannelRow) : Db :=
  let put (r : ChannelRow) (old : Option Channel) : Channel :=
    ⟨⟨r, fetchedAt⟩, old.bind (·.epgResolvedId)⟩
  { db with channels := db.channels.upsertAll (·.streamId) put rows }

/-- `UPSERT_VOD` -/
def upsertVod (fetchedAt : String) (rows : List VodRow) : Db :=
  { db with vod := db.vod.upsertAll (·.streamId) (fun r _ => ⟨r, fetchedAt⟩) rows }

/-- `UPSERT_SERIES` -/
def upsertSeries (fetchedAt : String) (rows : List SeriesRow) : Db :=
  { db with series := db.series.upsertAll (·.seriesId) (fun r _ => ⟨r, fetchedAt⟩) rows }

/-- `UPSERT_EPISODES`: each episode refers to a series. -/
def upsertEpisodes (rows : List EpisodeRow) : Except String Db :=
  if rows.all fun e => (db.series.lookup e.seriesId).isSome then
    .ok { db with episodes := db.episodes.upsertAll (·.episodeId) (fun e _ => e) rows }
  else .error "db: FOREIGN KEY constraint failed"

/-- `DELETE FROM channels WHERE fetched_at != ?1` -/
def deleteChannels (fetchedAt : String) : Db :=
  { db with channels := db.channels.retain fun c => c.listed.fetchedAt = fetchedAt }

/-- `DELETE FROM vod WHERE fetched_at != ?1` -/
def deleteVod (fetchedAt : String) : Db :=
  { db with vod := db.vod.retain fun v => v.fetchedAt = fetchedAt }

/-- `DELETE FROM series WHERE fetched_at != ?1`, and with a series its episodes. -/
def deleteSeries (fetchedAt : String) : Db :=
  { db with
    series := db.series.retain fun s => s.fetchedAt = fetchedAt
    episodes := db.episodes.retain fun e =>
      (db.series.lookup e.seriesId).all fun s => s.fetchedAt = fetchedAt }

/-- Whether there is a title of an identifier. -/
def has : LinkKind → ℤ → Bool
  | .vod, id => (db.vod.lookup id).isSome
  | .series, id => (db.series.lookup id).isSome

/-- `SOFT_DELETE_LINKS` -/
def softDeleteLinks (now : String) : Db :=
  { db with links := db.links.mapValues fun k link =>
      if link.removedAt = none ∧ db.has k.1 k.2 = false then { link with removedAt := some now }
      else link }

/-- `PRUNE_CATEGORIES` -/
def pruneCategories (kind : Kind) (ids : List ℤ) : Db :=
  { db with categories := db.categories.retainKeys fun k => k.1 ≠ kind ∨ k.2 ∈ ids }

/-- The titles of a kind that carry an identifier, and that. -/
def tagged {ρ : Type} (tmdbId : ρ → Option ℤ) (t : Table ℤ (Stamped ρ)) : List (ℤ × ℤ) :=
  t.entries.filterMap fun e => (tmdbId e.2.row).map fun tmdb => (e.1, tmdb)

/-- The rows that `LINK_TITLES` inserts. -/
def linkRows : List ((LinkKind × ℤ) × ℤ) :=
  (tagged VodRow.tmdbId db.vod).map (fun r => ((.vod, r.1), r.2)) ++
    (tagged SeriesRow.tmdbId db.series).map fun r => ((.series, r.1), r.2)

/-- `LINK_TITLES` -/
def linkTitles : Db :=
  { db with links :=
      db.links.upsertAll Prod.fst (fun r _ => ⟨r.1.1.tmdbKind, r.2, none⟩) db.linkRows }

end Db

/-! ### One run -/

structure Lists where
  liveCats : List CategoryRow
  vodCats : List CategoryRow
  seriesCats : List CategoryRow
  live : List ChannelRow
  vod : List VodRow
  series : List SeriesRow

/-- What a call for the episodes of a series returned. -/
structure Info where
  seriesId : ℤ
  answer : Except String (List Season)

/-- **What a panel answers**: the lists, or why they were not to be had, and the calls for the
episodes in the order in which they returned, one for each listed series. -/
structure Panel where
  lists : Except String Lists
  infos : List Info
  asked : ∀ l, lists = .ok l → (infos.map (·.seriesId)).Perm (l.series.map (·.seriesId))

theorem Panel.mem_asked (panel : Panel) {l : Lists} (h : panel.lists = .ok l) :
    ∀ i ∈ panel.infos, i.seriesId ∈ l.series.map (·.seriesId) :=
  fun _ hi => (panel.asked l h).subset (List.mem_map_of_mem hi)

def Lists.cats (l : Lists) : Kind → List CategoryRow
  | .live => l.liveCats
  | .vod => l.vodCats
  | .series => l.seriesCats

def Lists.allEmpty (l : Lists) : Bool :=
  l.liveCats.isEmpty && l.vodCats.isEmpty && l.seriesCats.isEmpty && l.live.isEmpty &&
    l.vod.isEmpty && l.series.isEmpty

/-- The episodes of a call that has not failed. -/
def Info.episodes (i : Info) : List EpisodeRow :=
  match i.answer with
  | .ok seasons => parseSeriesInfo seasons i.seriesId
  | .error _ => []

def returned (infos : List Info) : List EpisodeRow := infos.flatMap Info.episodes

def statements (l : Lists) (episodes : List EpisodeRow) (fetchedAt now : String) :
    List (Db → Except String Db) :=
  [fun db => .ok (db.upsertCategories .live l.liveCats),
    fun db => .ok (db.upsertCategories .vod l.vodCats),
    fun db => .ok (db.upsertCategories .series l.seriesCats),
    fun db => .ok (db.upsertChannels fetchedAt l.live),
    fun db => .ok (db.upsertVod fetchedAt l.vod),
    fun db => .ok (db.upsertSeries fetchedAt l.series),
    fun db => db.upsertEpisodes episodes,
    fun db => .ok (db.deleteChannels fetchedAt),
    fun db => .ok (db.deleteVod fetchedAt),
    fun db => .ok (db.deleteSeries fetchedAt),
    fun db => .ok (db.softDeleteLinks now),
    fun db => .ok (db.pruneCategories .live (l.liveCats.map (·.categoryId))),
    fun db => .ok (db.pruneCategories .vod (l.vodCats.map (·.categoryId))),
    fun db => .ok (db.pruneCategories .series (l.seriesCats.map (·.categoryId))),
    fun db => .ok db.linkTitles]

/-- **A transaction**: the statements in order and then the commit, each of which may fail. -/
def transaction (fails : ℕ → Option String) :
    List (Db → Except String Db) → ℕ → Db → Except String Db
  | [], n, db =>
    match fails n with
    | some e => .error e
    | none => .ok db
  | statement :: rest, n, db =>
    match fails n with
    | some e => .error e
    | none => (statement db).bind (transaction fails rest (n + 1))

/-- **`run`** up to the commit, `fails` telling which statement of the transaction fails. -/
def run (panel : Panel) (fetchedAt now : String) (fails : ℕ → Option String) (db : Db) :
    Except String Db :=
  panel.lists.bind fun l =>
    if l.allEmpty then .error "xtream_empty_response"
    else transaction fails (statements l (returned panel.infos) fetchedAt now) 0 db

/-- What a run leaves: a transaction that is not committed is rolled back. -/
def sync (panel : Panel) (fetchedAt now : String) (fails : ℕ → Option String) (db : Db) :
    Db × Except String Unit :=
  match run panel fetchedAt now fails db with
  | .ok db' => (db', .ok ())
  | .error e => (db, .error e)

/-! ### A committed run -/

def Db.upserted (db : Db) (l : Lists) (episodes : List EpisodeRow) (fetchedAt : String) : Db :=
  let db := (((((db.upsertCategories .live l.liveCats).upsertCategories .vod
    l.vodCats).upsertCategories .series l.seriesCats).upsertChannels fetchedAt l.live).upsertVod
      fetchedAt l.vod).upsertSeries fetchedAt l.series
  { db with episodes := db.episodes.upsertAll (·.episodeId) (fun e _ => e) episodes }

def Db.reconciled (db : Db) (l : Lists) (episodes : List EpisodeRow) (fetchedAt now : String) :
    Db :=
  let db := ((((db.upserted l episodes fetchedAt).deleteChannels fetchedAt).deleteVod
    fetchedAt).deleteSeries fetchedAt).softDeleteLinks now
  ((db.pruneCategories .live (l.liveCats.map (·.categoryId))).pruneCategories .vod
    (l.vodCats.map (·.categoryId))).pruneCategories .series (l.seriesCats.map (·.categoryId))

/-- **When a transaction is committed**: no statement fails, nor the commit. -/
theorem transaction_eq_ok_iff {fails : ℕ → Option String} {sts : List (Db → Except String Db)}
    {n : ℕ} {db db' : Db} : transaction fails sts n db = .ok db' ↔
      (∀ i ≤ sts.length, fails (n + i) = none) ∧
        sts.foldlM (fun db statement => statement db) db = .ok db' := by
  induction sts generalizing n db with
  | nil =>
    rw [transaction, List.foldlM_nil]
    cases h : fails n with
    | some e => simp [h]
    | none =>
      have hall : ∀ i ≤ ([] : List (Db → Except String Db)).length, fails (n + i) = none := by
        rintro i hi
        obtain rfl : i = 0 := Nat.le_zero.mp hi
        exact h
      exact ⟨fun heq => ⟨hall, heq⟩, fun heq => heq.2⟩
  | cons statement sts ih =>
    rw [transaction, List.foldlM_cons]
    cases h : fails n with
    | some e =>
      refine ⟨fun heq => (nomatch heq), fun heq => ?_⟩
      have := heq.1 0 (Nat.zero_le _)
      rw [Nat.add_zero, h] at this
      cases this
    | none =>
      have hall : (∀ i ≤ (statement :: sts).length, fails (n + i) = none) ↔
          ∀ i ≤ sts.length, fails (n + 1 + i) = none := by
        refine ⟨fun hi i hle => ?_, fun hi i hle => ?_⟩
        · rw [Nat.add_assoc, Nat.add_comm 1]
          exact hi (i + 1) (Nat.succ_le_succ hle)
        · rcases i with _ | i
          · exact h
          · rw [Nat.add_comm i, ← Nat.add_assoc]
            exact hi i (Nat.le_of_succ_le_succ hle)
      rw [hall]
      cases hstatement : statement db with
      | error e => exact ⟨fun heq => (nomatch heq), fun heq => (nomatch heq.2)⟩
      | ok db₁ => exact ih

theorem Info.of_mem_episodes {i : Info} {e : EpisodeRow} (h : e ∈ i.episodes) :
    i.answer.isOk = true ∧ e.seriesId = i.seriesId := by
  rw [Info.episodes] at h
  split at h
  · next hok =>
    obtain ⟨s, -, he⟩ := List.mem_flatMap.mp h
    obtain ⟨o, -, rfl⟩ := List.mem_map.mp he
    exact ⟨by rw [hok]; rfl, rfl⟩
  · exact absurd h List.not_mem_nil

theorem mem_returned {infos : List Info} {e : EpisodeRow} (h : e ∈ returned infos) :
    ∃ i ∈ infos, i.answer.isOk = true ∧ e.seriesId = i.seriesId := by
  obtain ⟨i, hi, he⟩ := List.mem_flatMap.mp h
  exact ⟨i, hi, Info.of_mem_episodes he⟩

theorem listed_returned {infos : List Info} {ids : List ℤ}
    (hinfos : ∀ i ∈ infos, i.seriesId ∈ ids) : ∀ e ∈ returned infos, e.seriesId ∈ ids := by
  rintro e he
  obtain ⟨i, hi, -, hseries⟩ := mem_returned he
  rw [hseries]
  exact hinfos i hi

def Commits (panel : Panel) (fails : ℕ → Option String) : Prop :=
  ∃ l, panel.lists = .ok l ∧ l.allEmpty = false ∧ ∀ i ≤ 15, fails i = none

variable {panel : Panel} {fetchedAt now : String} {fails : ℕ → Option String} {db : Db}
  {l : Lists}

theorem isSome_upsertSeries {s : ℤ} (h : s ∈ l.series.map (·.seriesId)) :
    ((db.upsertSeries fetchedAt l.series).series.lookup s).isSome = true := by
  obtain ⟨r, hr, rfl⟩ := List.mem_map.mp h
  rw [Db.upsertSeries, Table.lookup_upsertAll_const]
  cases hlast : Table.lastOf (·.seriesId) r.seriesId l.series with
  | some r' => rfl
  | none => exact absurd rfl (Table.lastOf_eq_none.mp hlast r hr)

/-- **What a run leaves**, if it commits and if it does not. -/
theorem sync_cases (panel : Panel) (fetchedAt now : String) (fails : ℕ → Option String) (db : Db) :
    (∃ l, panel.lists = .ok l ∧ Commits panel fails ∧ sync panel fetchedAt now fails db =
      ((db.reconciled l (returned panel.infos) fetchedAt now).linkTitles, .ok ())) ∨
    (¬Commits panel fails ∧ ∃ e, sync panel fetchedAt now fails db = (db, .error e)) := by
  have herror : ∀ e, run panel fetchedAt now fails db = .error e →
      sync panel fetchedAt now fails db = (db, .error e) := by
    rintro e he
    rw [sync, he]
  cases hlists : panel.lists with
  | error e =>
    refine .inr ⟨?_, e, herror e (by rw [run, hlists]; rfl)⟩
    rintro ⟨l, hl, -⟩
    rw [hlists] at hl
    cases hl
  | ok l =>
    cases hempty : l.allEmpty with
    | true =>
      refine .inr ⟨?_, _, herror "xtream_empty_response" (by rw [run, hlists]; exact if_pos hempty)⟩
      rintro ⟨l', hl', hnot, -⟩
      obtain rfl := Except.ok.inj (hlists.symm.trans hl')
      rw [hempty] at hnot
      cases hnot
    | false =>
      have hrun : run panel fetchedAt now fails db =
          transaction fails (statements l (returned panel.infos) fetchedAt now) 0 db := by
        rw [run, hlists]
        exact if_neg (by rw [hempty]; decide)
      -- every episode refers to a listed series
      have hforeign : (returned panel.infos).all (fun e =>
          ((db.upsertSeries fetchedAt l.series).series.lookup e.seriesId).isSome) = true := by
        rw [List.all_eq_true]
        exact fun e he => isSome_upsertSeries (listed_returned (panel.mem_asked hlists) e he)
      have hfold : (statements l (returned panel.infos) fetchedAt now).foldlM
          (fun db statement => statement db) db =
          .ok ((db.reconciled l (returned panel.infos) fetchedAt now).linkTitles) := by
        have hepisodes : ((((((db.upsertCategories .live l.liveCats).upsertCategories .vod
            l.vodCats).upsertCategories .series l.seriesCats).upsertChannels fetchedAt
            l.live).upsertVod fetchedAt l.vod).upsertSeries fetchedAt l.series).upsertEpisodes
              (returned panel.infos) = .ok (db.upserted l (returned panel.infos) fetchedAt) :=
          if_pos hforeign
        simp only [statements, List.foldlM_cons, List.foldlM_nil, bind, Except.bind, hepisodes]
        rfl
      by_cases hfails : ∀ i ≤ 15, fails i = none
      · refine .inl ⟨l, rfl, ⟨l, hlists, hempty, hfails⟩, ?_⟩
        have hok : transaction fails (statements l (returned panel.infos) fetchedAt now) 0 db =
            .ok ((db.reconciled l (returned panel.infos) fetchedAt now).linkTitles) :=
          transaction_eq_ok_iff.mpr ⟨fun i hi => by simpa using hfails i hi, hfold⟩
        rw [sync, hrun, hok]
      · refine .inr ⟨?_, ?_⟩
        · rintro ⟨-, -, -, hall⟩
          exact hfails hall
        · cases htx :
            transaction fails (statements l (returned panel.infos) fetchedAt now) 0 db with
          | error e => exact ⟨e, herror e (hrun.trans htx)⟩
          | ok db' =>
            obtain ⟨hall, -⟩ := transaction_eq_ok_iff.mp htx
            exact absurd (fun i hi => by simpa using hall i hi) hfails

/-! ### What is there then -/

/-- Every episode is of a stored series: the database sees to it. -/
def Db.Consistent (db : Db) : Prop :=
  ∀ id e, db.episodes.lookup id = some e → (db.series.lookup e.seriesId).isSome = true

structure Db.NotFetchedAt (db : Db) (fetchedAt : String) : Prop where
  channels : ∀ c ∈ db.channels.values, c.listed.fetchedAt ≠ fetchedAt
  vod : ∀ v ∈ db.vod.values, v.fetchedAt ≠ fetchedAt
  series : ∀ s ∈ db.series.values, s.fetchedAt ≠ fetchedAt

/-- The listed title of a kind, and the identifier that it carries, if it carries one. -/
def Lists.title (l : Lists) : LinkKind → ℤ → Option (Option ℤ)
  | .vod, id => (Table.lastOf (·.streamId) id l.vod).map (·.tmdbId)
  | .series, id => (Table.lastOf (·.seriesId) id l.series).map (·.tmdbId)

variable {episodes : List EpisodeRow}

theorem lookup_channels (h : db.NotFetchedAt fetchedAt) (now : String) (id : ℤ) :
    ((db.reconciled l episodes fetchedAt now).linkTitles.channels.lookup id).map (·.listed) =
      (Table.lastOf (·.streamId) id l.live).map (⟨·, fetchedAt⟩) := by
  let put (r : ChannelRow) (old : Option Channel) : Channel :=
    ⟨⟨r, fetchedAt⟩, old.bind (·.epgResolvedId)⟩
  have hold : ∀ c ∈ db.channels.values, decide (c.listed.fetchedAt = fetchedAt) = false :=
    fun c hc => decide_eq_false (h.channels c hc)
  have hnew : ∀ r old, decide ((put r old).listed.fetchedAt = fetchedAt) = true :=
    fun _ _ => decide_eq_true rfl
  have hlookup := Table.lookup_retain_upsertAll (·.streamId) hold hnew l.live id
  have hchannels : (db.reconciled l episodes fetchedAt now).linkTitles.channels =
      (db.channels.upsertAll (·.streamId) put l.live).retain
        fun c => c.listed.fetchedAt = fetchedAt := rfl
  rw [hchannels]
  cases hlast : Table.lastOf (·.streamId) id l.live with
  | some r =>
    rw [hlast] at hlookup
    obtain ⟨old, hlookup⟩ := hlookup
    rw [hlookup]
    rfl
  | none =>
    rw [hlast] at hlookup
    dsimp only at hlookup
    rw [hlookup]
    rfl

theorem lookup_vod (h : db.NotFetchedAt fetchedAt) (now : String) (id : ℤ) :
    (db.reconciled l episodes fetchedAt now).vod.lookup id =
      (Table.lastOf (·.streamId) id l.vod).map (⟨·, fetchedAt⟩) :=
  Table.lookup_retain_upsertAll_const (fun v hv => by simpa using h.vod v hv)
    (fun r => by simp) l.vod id

theorem lookup_series (h : db.NotFetchedAt fetchedAt) (now : String) (id : ℤ) :
    (db.reconciled l episodes fetchedAt now).series.lookup id =
      (Table.lastOf (·.seriesId) id l.series).map (⟨·, fetchedAt⟩) :=
  Table.lookup_retain_upsertAll_const (fun s hs => by simpa using h.series s hs)
    (fun r => by simp) l.series id

theorem lookup_upsertCategories (kind kind' : Kind) (rows : List CategoryRow) (id : ℤ) :
    (db.upsertCategories kind rows).categories.lookup (kind', id) =
      if kind' = kind then (Table.lastOf (·.categoryId) id rows).or
        (db.categories.lookup (kind', id)) else db.categories.lookup (kind', id) := by
  have hlast : Table.lastOf (fun r : CategoryRow => (kind, r.categoryId)) (kind', id) rows =
      if kind' = kind then Table.lastOf (·.categoryId) id rows else none := by
    by_cases hkind : kind' = kind
    · simp [Table.lastOf, hkind]
    · rw [if_neg hkind, Table.lastOf_eq_none]
      rintro r - heq
      exact hkind (Prod.mk.inj heq).1.symm
  rw [Db.upsertCategories, Table.lookup_upsertAll_const, hlast, Option.map_id']
  split <;> simp

theorem lookup_pruneCategories (kind kind' : Kind) (ids : List ℤ) (id : ℤ) :
    (db.pruneCategories kind ids).categories.lookup (kind', id) =
      if kind' = kind ∧ id ∉ ids then none else db.categories.lookup (kind', id) := by
  rw [Db.pruneCategories, Table.lookup_retainKeys]
  by_cases hkind : kind' = kind <;> by_cases hid : id ∈ ids <;> simp [hkind, hid]

theorem lookup_categories (now : String) (kind : Kind) (id : ℤ) :
    (db.reconciled l episodes fetchedAt now).linkTitles.categories.lookup (kind, id) =
      Table.lastOf (·.categoryId) id (l.cats kind) := by
  have hcategories : (db.reconciled l episodes fetchedAt now).linkTitles.categories =
      ((((((db.upsertCategories .live l.liveCats).upsertCategories .vod
        l.vodCats).upsertCategories .series l.seriesCats).pruneCategories .live
        (l.liveCats.map (·.categoryId))).pruneCategories .vod
        (l.vodCats.map (·.categoryId))).pruneCategories .series
        (l.seriesCats.map (·.categoryId))).categories := rfl
  -- a category is pruned just where it is not listed
  have hkept : ∀ (rows : List CategoryRow) (old : Option CategoryRow),
      (if id ∉ rows.map (·.categoryId) then none
        else (Table.lastOf (·.categoryId) id rows).or old) =
        Table.lastOf (·.categoryId) id rows := by
    intro rows old
    cases hlast : Table.lastOf (·.categoryId) id rows with
    | some r =>
      obtain ⟨hr, hid⟩ := Table.mem_of_lastOf hlast
      rw [if_neg (not_not.mpr (List.mem_map.mpr ⟨r, hr, hid⟩)), Option.some_or]
    | none =>
      rw [if_pos]
      rintro hmem
      obtain ⟨r, hr, hid⟩ := List.mem_map.mp hmem
      exact Table.lastOf_eq_none.mp hlast r hr hid
  rw [hcategories]
  simp only [lookup_pruneCategories, lookup_upsertCategories]
  cases kind
  · simpa [Lists.cats] using hkept l.liveCats (db.categories.lookup (.live, id))
  · simpa [Lists.cats] using hkept l.vodCats (db.categories.lookup (.vod, id))
  · simpa [Lists.cats] using hkept l.seriesCats (db.categories.lookup (.series, id))

/-- **Episodes after a run**: those that were returned, and of the others those of listed series. -/
theorem lookup_episodes (h : db.NotFetchedAt fetchedAt) (now : String) (hdb : db.Consistent)
    (hlisted : ∀ e ∈ episodes, e.seriesId ∈ l.series.map (·.seriesId)) (id : String) :
    (db.reconciled l episodes fetchedAt now).linkTitles.episodes.lookup id =
      (Table.lastOf (·.episodeId) id episodes).or
        ((db.episodes.lookup id).filter fun e => e.seriesId ∈ l.series.map (·.seriesId)) := by
  have hepisodes : (db.reconciled l episodes fetchedAt now).linkTitles.episodes =
      (db.episodes.upsertAll (·.episodeId) (fun e _ => e) episodes).retain fun e =>
        ((db.upsertSeries fetchedAt l.series).series.lookup e.seriesId).all
          fun s => s.fetchedAt = fetchedAt := rfl
  -- a series is deleted just where it is not listed
  have hkept : ∀ e, (e.seriesId ∈ l.series.map (·.seriesId) ∨ db.episodes.lookup id = some e) →
      (((db.upsertSeries fetchedAt l.series).series.lookup e.seriesId).all
        fun s => s.fetchedAt = fetchedAt) = decide (e.seriesId ∈ l.series.map (·.seriesId)) := by
    rintro e he
    rw [Db.upsertSeries, Table.lookup_upsertAll_const]
    cases hlast : Table.lastOf (·.seriesId) e.seriesId l.series with
    | some r =>
      obtain ⟨hr, hid⟩ := Table.mem_of_lastOf hlast
      have hmem : e.seriesId ∈ l.series.map (·.seriesId) := List.mem_map.mpr ⟨r, hr, hid⟩
      simp [hmem]
    | none =>
      have hnot : e.seriesId ∉ l.series.map (·.seriesId) := by
        intro hmem
        obtain ⟨r, hr, hid⟩ := List.mem_map.mp hmem
        exact Table.lastOf_eq_none.mp hlast r hr hid
      obtain ⟨s, hs⟩ := Option.isSome_iff_exists.mp (hdb id e (he.resolve_left hnot))
      have hstamp := h.series s (Table.mem_values_of_lookup hs)
      simp [hnot, hs, hstamp]
  rw [hepisodes, Table.lookup_retain, Table.lookup_upsertAll_const, Option.map_id']
  cases hlast : Table.lastOf (·.episodeId) id episodes with
  | some e =>
    have hmem := hlisted e (Table.mem_of_lastOf hlast).1
    rw [Option.some_or, Option.some_or, Option.filter_some, hkept e (.inl hmem)]
    simp [hmem]
  | none =>
    rw [Option.none_or, Option.none_or]
    cases hold : db.episodes.lookup id with
    | none => rfl
    | some e => rw [Option.filter_some, Option.filter_some, hkept e (.inr hold)]

/-! ### Links -/

theorem mem_tagged {ρ : Type} {tmdbId : ρ → Option ℤ} {t : Table ℤ (Stamped ρ)} {id tmdb : ℤ} :
    (id, tmdb) ∈ Db.tagged tmdbId t ↔ ∃ v, t.lookup id = some v ∧ tmdbId v.row = some tmdb := by
  rw [Db.tagged, List.mem_filterMap]
  constructor
  · rintro ⟨⟨id', v⟩, hmem, hv⟩
    obtain ⟨tmdb', htmdb, heq⟩ := Option.map_eq_some_iff.mp hv
    obtain ⟨rfl, rfl⟩ := Prod.mk.inj heq
    exact ⟨v, AList.mem_lookup_iff.mpr hmem, htmdb⟩
  · rintro ⟨v, hv, htmdb⟩
    exact ⟨⟨id, v⟩, AList.mem_lookup_iff.mp hv, by simp [htmdb]⟩

/-- A stored title of a kind, and the identifier that it carries, if it carries one. -/
def Db.title (db : Db) : LinkKind → ℤ → Option (Option ℤ)
  | .vod, id => (db.vod.lookup id).map fun v => v.row.tmdbId
  | .series, id => (db.series.lookup id).map fun s => s.row.tmdbId

theorem mem_linkRows {kind : LinkKind} {id tmdb : ℤ} :
    ((kind, id), tmdb) ∈ db.linkRows ↔ db.title kind id = some (some tmdb) := by
  rw [Db.linkRows, List.mem_append]
  cases kind <;> simp [Db.title, mem_tagged, Option.map_eq_some_iff]

theorem lastOf_linkRows (kind : LinkKind) (id : ℤ) :
    Table.lastOf Prod.fst (kind, id) db.linkRows =
      (db.title kind id).join.map fun tmdb => ((kind, id), tmdb) := by
  cases htitle : (db.title kind id).join with
  | some tmdb =>
    have hsome := Option.join_eq_some_iff.mp htitle
    refine Table.lastOf_eq_some_of_unique (mem_linkRows.mpr hsome) rfl ?_
    rintro ⟨⟨kind', id'⟩, tmdb'⟩ hmem heq
    obtain ⟨rfl, rfl⟩ := Prod.mk.inj heq
    rw [mem_linkRows, hsome] at hmem
    rw [Option.some.inj (Option.some.inj hmem)]
  | none =>
    rw [Option.map_none, Table.lastOf_eq_none]
    rintro ⟨⟨kind', id'⟩, tmdb⟩ hmem heq
    obtain ⟨rfl, rfl⟩ := Prod.mk.inj heq
    rw [mem_linkRows] at hmem
    rw [hmem] at htitle
    cases htitle

theorem title_reconciled (h : db.NotFetchedAt fetchedAt) (episodes : List EpisodeRow)
    (now : String) (kind : LinkKind) (id : ℤ) :
    (db.reconciled l episodes fetchedAt now).title kind id = l.title kind id := by
  cases kind
  · rw [Db.title, lookup_vod h now, Option.map_map]
    rfl
  · rw [Db.title, lookup_series h now, Option.map_map]
    rfl

/-- **Links after a run**: a listed title with an identifier is linked to it, one without keeps
the link that it has, and the link of a title that is gone is tombstoned. -/
theorem lookup_links (h : db.NotFetchedAt fetchedAt) (now : String) (kind : LinkKind) (id : ℤ) :
    (db.reconciled l episodes fetchedAt now).linkTitles.links.lookup (kind, id) =
      match l.title kind id with
      | some (some tmdb) => some ⟨kind.tmdbKind, tmdb, none⟩
      | some none => db.links.lookup (kind, id)
      | none => (db.links.lookup (kind, id)).map fun link =>
        if link.removedAt = none then { link with removedAt := some now } else link := by
  have hsoft : (db.reconciled l episodes fetchedAt now).links.lookup (kind, id) =
      (db.links.lookup (kind, id)).map fun link =>
        if link.removedAt = none ∧ l.title kind id = none then { link with removedAt := some now }
        else link := by
    have hlinks : (db.reconciled l episodes fetchedAt now).links =
        db.links.mapValues fun k link => if link.removedAt = none ∧
          (db.reconciled l episodes fetchedAt now).has k.1 k.2 = false then
            { link with removedAt := some now } else link := rfl
    have hhas : (db.reconciled l episodes fetchedAt now).has kind id = false ↔
        l.title kind id = none := by
      rw [← title_reconciled h episodes now]
      cases kind <;> simp [Db.has, Db.title]
    rw [hlinks, Table.lookup_mapValues]
    simp only [hhas]
  rw [Db.linkTitles, Table.lookup_upsertAll_const, lastOf_linkRows,
    title_reconciled h episodes now, hsoft]
  rcases htitle : l.title kind id with _ | _ | tmdb
  · simp
  · simp
  · simp

/-! ### Exact reconciliation -/

/-- **The catalog is what the panel listed**: the last entry of each identifier, the episodes that
were returned for each series, and a link for each title that carries an identifier. -/
structure Exact (l : Lists) (infos : List Info) (fetchedAt : String) (before after : Db) :
    Prop where
  channels : ∀ id, (after.channels.lookup id).map (·.listed) =
    (Table.lastOf (·.streamId) id l.live).map (⟨·, fetchedAt⟩)
  vod : ∀ id, after.vod.lookup id = (Table.lastOf (·.streamId) id l.vod).map (⟨·, fetchedAt⟩)
  series : ∀ id, after.series.lookup id =
    (Table.lastOf (·.seriesId) id l.series).map (⟨·, fetchedAt⟩)
  categories : ∀ kind id, after.categories.lookup (kind, id) =
    Table.lastOf (·.categoryId) id (l.cats kind)
  returned : ∀ i ∈ infos, i.answer.isOk = true → ∀ id e,
    (after.episodes.lookup id = some e ∧ e.seriesId = i.seriesId) ↔
      Table.lastOf (·.episodeId) id i.episodes = some e
  failed : ∀ s ∈ l.series, (∀ i ∈ infos, i.seriesId = s.seriesId → i.answer.isOk = false) →
    ∀ id e, e.seriesId = s.seriesId →
      (after.episodes.lookup id = some e ↔ before.episodes.lookup id = some e)
  delisted : ∀ id e, after.episodes.lookup id = some e → e.seriesId ∈ l.series.map (·.seriesId)
  links : ∀ kind id link, (after.links.lookup (kind, id) = some link ∧ link.removedAt = none) ↔
    ∃ tmdb, l.title kind id = some (some tmdb) ∧ link = ⟨kind.tmdbKind, tmdb, none⟩

/-- **What a sync promises**: an exact reconciliation if it commits, and nothing if it fails. -/
def Reconciles (panel : Panel) (fetchedAt now : String) (fails : ℕ → Option String) (before : Db) :
    Prop :=
  match sync panel fetchedAt now fails before with
  | (after, .ok ()) => ∀ l, panel.lists = .ok l → Exact l panel.infos fetchedAt before after
  | (after, .error _) => after = before

/-- **Nothing is left over**: the episodes of a series that was returned are all returned again,
each under an identifier of its own; those of a series whose call failed are not returned for
another; and no title that is listed without an identifier has a link. -/
structure NoneLeft (l : Lists) (infos : List Info) (before : Db) : Prop where
  dropped : ∀ i ∈ infos, i.answer.isOk = true → ∀ id e, before.episodes.lookup id = some e →
    e.seriesId = i.seriesId → ∃ e' ∈ Catalog.returned infos, e'.episodeId = id
  own : ∀ i ∈ infos, i.answer.isOk = true → ∀ id e, e.seriesId = i.seriesId →
    (Table.lastOf (·.episodeId) id (Catalog.returned infos) = some e ↔
      Table.lastOf (·.episodeId) id i.episodes = some e)
  taken : ∀ s ∈ l.series, (∀ i ∈ infos, i.seriesId = s.seriesId → i.answer.isOk = false) →
    ∀ id e, before.episodes.lookup id = some e → e.seriesId = s.seriesId →
      ∀ e' ∈ Catalog.returned infos, e'.episodeId ≠ id
  untagged : ∀ kind id link, before.links.lookup (kind, id) = some link → link.removedAt = none →
    l.title kind id ≠ some none

/-- **Episodes are reconciled** if none are left over. -/
theorem returned_iff (h : db.NotFetchedAt fetchedAt) (hdb : db.Consistent) {infos : List Info}
    (hinfos : ∀ i ∈ infos, i.seriesId ∈ l.series.map (·.seriesId)) {i : Info} (hi : i ∈ infos) :
    (∀ id e, ((db.reconciled l (returned infos) fetchedAt now).linkTitles.episodes.lookup id =
        some e ∧ e.seriesId = i.seriesId) ↔ Table.lastOf (·.episodeId) id i.episodes = some e) ↔
      (∀ id e, db.episodes.lookup id = some e → e.seriesId = i.seriesId →
        ∃ e' ∈ returned infos, e'.episodeId = id) ∧
      ∀ id e, e.seriesId = i.seriesId →
        (Table.lastOf (·.episodeId) id (returned infos) = some e ↔
          Table.lastOf (·.episodeId) id i.episodes = some e) := by
  have hlookup := lookup_episodes h now hdb (listed_returned hinfos)
  -- what a call returned is returned
  have hcall : ∀ id e, Table.lastOf (·.episodeId) id i.episodes = some e →
      e ∈ returned infos ∧ e.episodeId = id ∧ e.seriesId = i.seriesId := by
    rintro id e he
    obtain ⟨hmem, hid⟩ := Table.mem_of_lastOf he
    exact ⟨List.mem_flatMap.mpr ⟨i, hi, hmem⟩, hid, (Info.of_mem_episodes hmem).2⟩
  constructor
  · intro hexact
    refine ⟨fun id e he hseries => ?_, fun id e hseries => ⟨fun hlast => ?_, fun hlast => ?_⟩⟩
    · by_contra hnone
      push Not at hnone
      have hlast := Table.lastOf_eq_none.mpr hnone
      have hafter := hlookup id
      rw [hlast, he, Option.none_or, Option.filter_some, hseries,
        if_pos (decide_eq_true (hinfos i hi))] at hafter
      obtain ⟨hmem, hid, -⟩ := hcall id e ((hexact id e).mp ⟨hafter, hseries⟩)
      exact hnone e hmem hid
    · refine (hexact id e).mp ⟨?_, hseries⟩
      rw [hlookup, hlast, Option.some_or]
    · obtain ⟨hafter, -⟩ := (hexact id e).mpr hlast
      obtain ⟨hmem, hid, -⟩ := hcall id e hlast
      rw [hlookup] at hafter
      cases hlast' : Table.lastOf (·.episodeId) id (returned infos) with
      | none => exact absurd hid (Table.lastOf_eq_none.mp hlast' e hmem)
      | some e' => rwa [hlast', Option.some_or] at hafter
  · rintro ⟨hdropped, hown⟩ id e
    constructor
    · rintro ⟨hafter, hseries⟩
      rw [hlookup] at hafter
      rcases Option.or_eq_some_iff.mp hafter with hlast | ⟨hlast, hold⟩
      · exact (hown id e hseries).mp hlast
      · obtain ⟨hold, -⟩ := Option.filter_eq_some_iff.mp hold
        obtain ⟨e', hmem, hid⟩ := hdropped id e hold hseries
        exact absurd hid (Table.lastOf_eq_none.mp hlast e' hmem)
    · intro hlast
      have hseries := (hcall id e hlast).2.2
      rw [hlookup, (hown id e hseries).mpr hlast, Option.some_or]
      exact ⟨rfl, hseries⟩

/-- **The episodes of a series whose call failed** are kept if they are not taken. -/
theorem failed_iff (h : db.NotFetchedAt fetchedAt) (hdb : db.Consistent) {infos : List Info}
    (hinfos : ∀ i ∈ infos, i.seriesId ∈ l.series.map (·.seriesId)) {s : SeriesRow}
    (hs : s ∈ l.series)
    (hfailed : ∀ i ∈ infos, i.seriesId = s.seriesId → i.answer.isOk = false) :
    (∀ id e, e.seriesId = s.seriesId →
      ((db.reconciled l (returned infos) fetchedAt now).linkTitles.episodes.lookup id = some e ↔
        db.episodes.lookup id = some e)) ↔
      ∀ id e, db.episodes.lookup id = some e → e.seriesId = s.seriesId →
        ∀ e' ∈ returned infos, e'.episodeId ≠ id := by
  have hlookup := lookup_episodes h now hdb (listed_returned hinfos)
  -- nothing was returned for the series
  have hother : ∀ id e, e.seriesId = s.seriesId →
      Table.lastOf (·.episodeId) id (returned infos) ≠ some e := by
    rintro id e hseries hlast
    obtain ⟨i, hi, hok, hasked⟩ := mem_returned (Table.mem_of_lastOf hlast).1
    rw [hfailed i hi (hasked.symm.trans hseries)] at hok
    cases hok
  constructor
  · rintro hkept id e he hseries e' hmem hid
    have hafter := (hkept id e hseries).mpr he
    rw [hlookup] at hafter
    rcases Option.or_eq_some_iff.mp hafter with hlast | ⟨hlast, -⟩
    · exact hother id e hseries hlast
    · exact Table.lastOf_eq_none.mp hlast e' hmem hid
  · rintro htaken id e hseries
    rw [hlookup]
    constructor
    · intro hafter
      rcases Option.or_eq_some_iff.mp hafter with hlast | ⟨-, hold⟩
      · exact absurd hlast (hother id e hseries)
      · exact (Option.filter_eq_some_iff.mp hold).1
    · intro he
      rw [Table.lastOf_eq_none.mpr (htaken id e he hseries), he, Option.none_or]
      have hmem : e.seriesId ∈ l.series.map (·.seriesId) :=
        hseries ▸ List.mem_map_of_mem hs
      exact Option.filter_eq_some_iff.mpr ⟨rfl, decide_eq_true hmem⟩

/-- **Links are reconciled** if no title that is listed without an identifier has one. -/
theorem links_iff (h : db.NotFetchedAt fetchedAt) :
    (∀ kind id link,
      ((db.reconciled l episodes fetchedAt now).linkTitles.links.lookup (kind, id) = some link ∧
        link.removedAt = none) ↔
        ∃ tmdb, l.title kind id = some (some tmdb) ∧ link = ⟨kind.tmdbKind, tmdb, none⟩) ↔
      ∀ kind id link, db.links.lookup (kind, id) = some link → link.removedAt = none →
        l.title kind id ≠ some none := by
  constructor
  · rintro hexact kind id link hlink hactive htitle
    have hafter : (db.reconciled l episodes fetchedAt now).linkTitles.links.lookup (kind, id) =
        db.links.lookup (kind, id) := by
      rw [lookup_links h now, htitle]
    obtain ⟨tmdb, hsome, -⟩ := (hexact kind id link).mp ⟨hafter.trans hlink, hactive⟩
    rw [htitle] at hsome
    cases hsome
  · rintro huntagged kind id link
    rw [lookup_links h now]
    rcases htitle : l.title kind id with _ | _ | tmdb
    · -- what is left of the link is a tombstone
      constructor
      · rintro ⟨hlink, hactive⟩
        obtain ⟨old, -, rfl⟩ := Option.map_eq_some_iff.mp hlink
        split at hactive
        · cases hactive
        · next hnot => exact absurd hactive hnot
      · rintro ⟨tmdb, hsome, -⟩
        cases hsome
    · constructor
      · rintro ⟨hlink, hactive⟩
        exact absurd htitle (huntagged kind id link hlink hactive)
      · rintro ⟨tmdb, hsome, -⟩
        cases hsome
    · constructor
      · rintro ⟨hlink, -⟩
        exact ⟨tmdb, rfl, (Option.some.inj hlink).symm⟩
      · rintro ⟨tmdb', hsome, rfl⟩
        obtain rfl := Option.some.inj (Option.some.inj hsome)
        exact ⟨rfl, rfl⟩

/-- **Catalog sync reconciles exactly** if and only if nothing is left over. -/
theorem reconciles_iff (hdb : db.Consistent) (h : db.NotFetchedAt fetchedAt) :
    Reconciles panel fetchedAt now fails db ↔
      (Commits panel fails → ∀ l, panel.lists = .ok l → NoneLeft l panel.infos db) := by
  rw [Reconciles]
  rcases sync_cases panel fetchedAt now fails db with ⟨l, hl, hcommits, hsync⟩ | ⟨hnot, e, hsync⟩
  · rw [hsync]
    have hinfos := panel.mem_asked hl
    constructor
    · rintro hexact - l' hl'
      have hexact := hexact l' hl'
      obtain rfl := Except.ok.inj (hl.symm.trans hl')
      refine ⟨fun i hi hok => ?_, fun i hi hok => ?_, fun s hs hfailed => ?_,
        (links_iff h).mp hexact.links⟩
      · exact ((returned_iff h hdb hinfos hi).mp (hexact.returned i hi hok)).1
      · exact ((returned_iff h hdb hinfos hi).mp (hexact.returned i hi hok)).2
      · exact (failed_iff h hdb hinfos hs hfailed).mp (hexact.failed s hs hfailed)
    · rintro hleft l' hl'
      have hleft := hleft hcommits l' hl'
      obtain rfl := Except.ok.inj (hl.symm.trans hl')
      refine ⟨lookup_channels h now, lookup_vod h now, lookup_series h now, lookup_categories now,
        fun i hi hok => ?_, fun s hs hfailed => ?_, fun id e he => ?_,
        (links_iff h).mpr hleft.untagged⟩
      · exact (returned_iff h hdb hinfos hi).mpr ⟨hleft.dropped i hi hok, hleft.own i hi hok⟩
      · exact (failed_iff h hdb hinfos hs hfailed).mpr (hleft.taken s hs hfailed)
      · rw [lookup_episodes h now hdb (listed_returned hinfos)] at he
        rcases Option.or_eq_some_iff.mp he with hlast | ⟨-, hold⟩
        · exact listed_returned hinfos e (Table.mem_of_lastOf hlast).1
        · exact of_decide_eq_true (Option.filter_eq_some_iff.mp hold).2
  · rw [hsync]
    exact ⟨fun _ hcommits => absurd hcommits hnot, fun _ => rfl⟩

/-! ### Runs keep what they need -/

/-- **A sync leaves a consistent catalog.** -/
theorem Db.Consistent.sync (hdb : db.Consistent) (panel : Panel) (fetchedAt now : String)
    (fails : ℕ → Option String) : (Catalog.sync panel fetchedAt now fails db).1.Consistent := by
  rcases sync_cases panel fetchedAt now fails db with ⟨l, hl, -, hsync⟩ | ⟨-, e, hsync⟩
  · rw [hsync]
    rintro id e he
    have hepisodes : (db.reconciled l (returned panel.infos) fetchedAt now).linkTitles.episodes =
        (db.episodes.upsertAll (·.episodeId) (fun e _ => e) (returned panel.infos)).retain fun e =>
          ((db.upsertSeries fetchedAt l.series).series.lookup e.seriesId).all
            fun s => s.fetchedAt = fetchedAt := rfl
    have hseries : (db.reconciled l (returned panel.infos) fetchedAt now).linkTitles.series =
        (db.upsertSeries fetchedAt l.series).series.retain fun s => s.fetchedAt = fetchedAt := rfl
    rw [hepisodes, Table.lookup_retain, Option.filter_eq_some_iff, Table.lookup_upsertAll_const,
      Option.map_id'] at he
    obtain ⟨he, hkept⟩ := he
    rw [hseries, Table.lookup_retain]
    have hthere :
        ((db.upsertSeries fetchedAt l.series).series.lookup e.seriesId).isSome = true := by
      rcases Option.or_eq_some_iff.mp he with hlast | ⟨-, hold⟩
      · exact isSome_upsertSeries
          (listed_returned (panel.mem_asked hl) e (Table.mem_of_lastOf hlast).1)
      · rw [Db.upsertSeries, Table.lookup_upsertAll_const, Option.isSome_or, hdb id e hold,
          Bool.or_true]
    obtain ⟨s, hs⟩ := Option.isSome_iff_exists.mp hthere
    rw [hs, Option.all_some] at hkept
    rw [hs, Option.filter_some, if_pos hkept]
    rfl
  · rw [hsync]
    exact hdb

theorem Db.NotFetchedAt.sync (h : db.NotFetchedAt fetchedAt) {earlier : String}
    (hne : earlier ≠ fetchedAt) (panel : Panel) (now : String) (fails : ℕ → Option String) :
    (Catalog.sync panel earlier now fails db).1.NotFetchedAt fetchedAt := by
  rcases sync_cases panel earlier now fails db with ⟨l, -, -, hsync⟩ | ⟨-, e, hsync⟩
  · -- what is left is what this sync has seen
    have hstamp : ∀ {ν : Type} (at' : ν → String) (t : Table ℤ ν),
        ∀ v ∈ (t.retain fun v => at' v = earlier).values, at' v ≠ fetchedAt := by
      rintro ν at' t v hv
      obtain ⟨k, hmem⟩ := Table.mem_values.mp hv
      rw [of_decide_eq_true (List.mem_filter.mp hmem).2]
      exact hne
    rw [hsync]
    exact ⟨hstamp (fun c : Channel => c.listed.fetchedAt) _,
      hstamp (fun v : Stamped VodRow => v.fetchedAt) _,
      hstamp (fun s : Stamped SeriesRow => s.fetchedAt) _⟩
  · rw [hsync]
    exact h

/-! ### A series loses an episode -/

def Db.empty : Db := ⟨∅, ∅, ∅, ∅, ∅, ∅⟩

theorem Db.consistent_empty : Db.empty.Consistent := by
  rintro id e he
  cases he

theorem Db.notFetchedAt_empty (fetchedAt : String) : Db.empty.NotFetchedAt fetchedAt :=
  ⟨fun _ hc => (nomatch hc), fun _ hv => (nomatch hv), fun _ hs => (nomatch hs)⟩

/-- A panel with a channel, a film and a series, which has some episodes in its only season. -/
def panelOf (episodes : List PanelEpisode) : Panel where
  lists := .ok
    { liveCats := [⟨1, "News", 0⟩], vodCats := [⟨2, "Action", 0⟩], seriesCats := [⟨3, "Drama", 0⟩]
      live := [⟨10, 1, "C", none, some "c.1", some 1, 0, 1, some 7, none⟩]
      vod := [⟨20, "M", none, some 7, some 2, some "mp4", none, some 603, some 1999, none, none,
        none⟩]
      series := [⟨30, "S", none, none, none, some 3, some 1399, none⟩] }
  infos := [⟨30, .ok [⟨1, some episodes⟩]⟩]
  asked := by
    rintro l hl
    obtain rfl := Except.ok.inj hl
    exact List.Perm.refl _

def pilot : PanelEpisode := ⟨"101", 1, some "Pilot", some "mp4", none, none, some 1200⟩

def second : PanelEpisode := ⟨"102", 2, some "Second", some "mp4", none, none, some 1200⟩

def firstSync : Db :=
  (sync (panelOf [pilot, second]) "2026-01-01T00:00:00.000Z" "2026-01-01 00:00:00" (fun _ => none)
    .empty).1

theorem reconciles_iff_firstSync : Reconciles (panelOf [pilot, second]) "2026-01-01T00:00:00.000Z"
    "2026-01-01 00:00:00" (fun _ => none) .empty :=
  (reconciles_iff Db.consistent_empty (Db.notFetchedAt_empty _)).mpr fun _ l _ =>
    { dropped := fun _ _ _ _ _ he => (nomatch he)
      own := by
        rintro i hi - id e -
        obtain rfl := List.mem_singleton.mp hi
        rfl
      taken := fun _ _ _ _ _ he => (nomatch he)
      untagged := fun _ _ _ hlink => (nomatch hlink) }

/-- **The panel drops an episode**: it stays with its series. -/
theorem not_reconciles_dropped : firstSync.Consistent ∧
    firstSync.NotFetchedAt "2026-01-02T00:00:00.000Z" ∧
    ¬Reconciles (panelOf [pilot]) "2026-01-02T00:00:00.000Z" "2026-01-02 00:00:00"
      (fun _ => none) firstSync := by
  refine ⟨Db.consistent_empty.sync _ _ _ _,
    (Db.notFetchedAt_empty _).sync (by decide) _ _ _, fun hreconciles => ?_⟩
  have hexact := hreconciles _ rfl
  have hlast := (hexact.returned _ (List.mem_singleton.mpr rfl) rfl "102"
    ⟨"102", 30, 1, 2, some "Second", some "mp4", none, none, some 1200⟩).mp ⟨rfl, rfl⟩
  cases hlast

end EmeraldExchange.Iptv.Catalog
