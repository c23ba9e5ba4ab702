import Mathlib.Data.List.Dedup
import Mathlib.Data.List.Sort
import Mathlib.Order.WithBot
import EmeraldExchange.Lib.RowTable
import EmeraldExchange.Recommender.Featurize

/-!
# The catalog tables

The catalog that the recommender ranks is six tables: the titles, their genres, keywords, cast and
crew, and their features. The ingest writes a title and its children in one transaction: the title
in place, stamped with the second of the write, its children by deleting what was there and
inserting what has come. The featurize job writes the features in chunks, all the chunks of a run
under the one stamp that the run took at its start.

The caches read the tables in separate statements: two fingerprints, and then the rows. What they
read is given here as functions of the tables, each of which is one statement.

The order of rows that a statement does not name is that of the rowids. A catalog and a table of
weights are known by the rows that they are computed from.
-/

namespace EmeraldExchange.Recommender.TitleDb

open Featurize (Key encodeVecRowid)
open RowTable (Generation generation)

/-- A stamp, in seconds. The empty text is before every stamp. -/
abbrev Stamp := WithBot ℤ

/-! ### The rows -/

/-- The columns of a title that the catalog is computed from. A real number is given by its bits. -/
structure Columns where
  title : String
  year : Option ℤ
  releaseDate : Option String
  voteAverage : Option UInt64
  voteCount : ℤ
  popularity : Option UInt64
  status : Option String
  originalLanguage : Option String
  rawJson : String
  deriving DecidableEq

/-- A row of `titles`. -/
structure TitleRow where
  key : Key
  columns : Columns
  fetchedAt : Stamp
  deriving DecidableEq

/-- A row of `title_genres`. -/
structure GenreRow where
  key : Key
  genreId : ℤ
  deriving DecidableEq

/-- A row of `title_keywords`. -/
structure KeywordRow where
  key : Key
  keywordId : ℤ
  deriving DecidableEq

/-- A row of `title_cast`. -/
structure CastRow where
  key : Key
  personId : ℤ
  orderIdx : Option ℤ
  deriving DecidableEq

/-- A row of `title_crew`. -/
structure CrewRow where
  key : Key
  personId : ℤ
  job : String
  deriving DecidableEq

/-- A row of `title_features`: the vector as the words of its blob. -/
structure FeatureRow where
  key : Key
  embedding : List UInt32
  dim : ℕ
  computedAt : Stamp
  deriving DecidableEq

/-- **The tables that the ingest writes.** -/
structure TitleTables where
  titles : RowTable TitleRow
  titleGenres : RowTable GenreRow
  titleKeywords : RowTable KeywordRow
  titleCast : RowTable CastRow
  titleCrew : RowTable CrewRow

/-- **The database.** -/
structure CatalogDb where
  tables : TitleTables
  titleFeatures : RowTable FeatureRow
  /-- The model whose vectors the features are. -/
  embedModel : Option String

def CatalogDb.empty : CatalogDb := ⟨⟨[], [], [], [], []⟩, [], none⟩

/-! ### The transactions -/

structure Children where
  genres : List ℤ
  keywords : List ℤ
  cast : List (ℤ × Option ℤ)
  crew : List (ℤ × String)

structure Detail where
  key : Key
  adult : Bool
  columns : Columns
  children : Children

def minVoteCount : ℤ := 50

/-- No two children have the same primary key; otherwise a statement fails. -/
def Children.insertable (c : Children) : Bool :=
  decide c.genres.Nodup && decide c.keywords.Nodup && decide (c.cast.map Prod.fst).Nodup &&
    decide c.crew.Nodup

/-- `DELETE … WHERE kind = ? AND tmdb_id = ?`, and the rows that are inserted in their place. -/
def TitleTables.writeChildren (t : TitleTables) (key : Key) (c : Children) : TitleTables :=
  { t with
    titleGenres := t.titleGenres.rewrite (fun r => r.key = key) (c.genres.map (⟨key, ·⟩))
    titleKeywords := t.titleKeywords.rewrite (fun r => r.key = key) (c.keywords.map (⟨key, ·⟩))
    titleCast := t.titleCast.rewrite (fun r => r.key = key)
      (c.cast.map fun p => ⟨key, p.1, p.2⟩)
    titleCrew := t.titleCrew.rewrite (fun r => r.key = key)
      (c.crew.map fun p => ⟨key, p.1, p.2⟩) }

def Children.none : Children := ⟨[], [], [], []⟩

def TitleTables.deleteTitle (t : TitleTables) (key : Key) : TitleTables :=
  { t.writeChildren key .none with titles := t.titles.remove fun r => r.key = key }

/-- A title is written in place, and its children anew. -/
def TitleTables.upsertTitle (t : TitleTables) (d : Detail) (now : Stamp) : TitleTables :=
  { t.writeChildren d.key d.children with
    titles := t.titles.upsert (fun r => r.key = d.key) ⟨d.key, d.columns, now⟩ }

/-- Whether the detail is one that is deleted everywhere instead. -/
def Detail.unwanted (d : Detail) : Bool := d.adult || decide (d.columns.voteCount < minVoteCount)

/-- **One detail is written.** None is a transaction that was rolled back. -/
def CatalogDb.persistDetail (db : CatalogDb) (d : Detail) (now : ℤ) : Option CatalogDb :=
  if d.unwanted then
    if (encodeVecRowid d.key).isSome then
      some { db with
        tables := db.tables.deleteTitle d.key
        titleFeatures := db.titleFeatures.remove fun r => r.key = d.key }
    else none
  else if d.children.insertable then
    some { db with tables := db.tables.upsertTitle d now }
  else none

def embedDim : ℕ := 384

/-- **A chunk of features is written**, under the stamp of the run. -/
def CatalogDb.persist (db : CatalogDb) (chunk : List (Key × List UInt32)) (computedAt : ℤ) :
    Option CatalogDb :=
  if chunk.all fun e => (encodeVecRowid e.1).isSome && decide (e.2.length = embedDim) then
    some { db with
      titleFeatures := chunk.foldl
        (fun t e => t.upsert (fun r => r.key = e.1) ⟨e.1, e.2, embedDim, computedAt⟩)
        db.titleFeatures }
  else none

/-- Whether the features in the database are another model's. -/
def CatalogDb.otherModel (db : CatalogDb) (identity : String) : Bool :=
  db.embedModel.any fun old => old ≠ identity

/-- **Every feature is marked stale** where the model has changed. -/
def CatalogDb.reconcileModelIdentity (db : CatalogDb) (identity : String) : CatalogDb :=
  { db with
    titleFeatures :=
      if db.otherModel identity then db.titleFeatures.update fun r => { r with computedAt := ⊥ }
      else db.titleFeatures
    embedModel := some identity }

inductive Op
  | persistDetail (d : Detail) (now : ℤ)
  | persist (chunk : List (Key × List UInt32)) (computedAt : ℤ)
  | reconcile (identity : String)

def CatalogDb.commit (db : CatalogDb) : Op → Option CatalogDb
  | .persistDetail d now => db.persistDetail d now
  | .persist chunk computedAt => db.persist chunk computedAt
  | .reconcile identity => some (db.reconcileModelIdentity identity)

/-! ### The statements of the catalog -/

structure CatalogRow where
  tmdbId : ℤ
  columns : Columns
  genres : List ℤ
  embedding : List UInt32
  dim : ℕ
  deriving DecidableEq

/-- `(SELECT GROUP_CONCAT(genre_id) … ORDER BY g.genre_id)` -/
def TitleTables.genresOf (t : TitleTables) (key : Key) : List ℤ :=
  ((t.titleGenres.filter fun x => x.2.key = key).map fun x => x.2.genreId).insertionSort (· ≤ ·)

/-- `FROM titles t JOIN title_features f … WHERE t.kind = ?` -/
def catalogRows (kind : Kind) (t : TitleTables) (features : RowTable FeatureRow) :
    List CatalogRow :=
  (t.titles.filter fun x => x.2.key.kind = kind).flatMap fun x =>
    (features.filter fun f => f.2.key = x.2.key).map fun f =>
      ⟨x.2.key.tmdbId, x.2.columns, t.genresOf x.2.key, f.2.embedding, f.2.dim⟩

def castTopn : ℤ := 10

/-- `SELECT tmdb_id, person_id FROM title_cast WHERE kind = ? AND order_idx < 10` -/
def castPairs (kind : Kind) (t : TitleTables) : List (ℤ × ℤ) :=
  (t.titleCast.filter fun x => x.2.key.kind = kind && x.2.orderIdx.any (· < castTopn)).map
    fun x => (x.2.key.tmdbId, x.2.personId)

def keyCrewJobs : List String :=
  ["Director", "Writer", "Screenplay", "Story", "Creator", "Author", "Novel"]

/-- `SELECT DISTINCT tmdb_id, person_id FROM title_crew WHERE kind = ? AND job IN (…)` -/
def crewPairs (kind : Kind) (t : TitleTables) : List (ℤ × ℤ) :=
  ((t.titleCrew.filter fun x => x.2.key.kind = kind && keyCrewJobs.contains x.2.job).map
    fun x => (x.2.key.tmdbId, x.2.personId)).dedup

/-- `SELECT tmdb_id, keyword_id FROM title_keywords WHERE kind = ?` -/
def keywordPairs (kind : Kind) (t : TitleTables) : List (ℤ × ℤ) :=
  (t.titleKeywords.filter fun x => x.2.key.kind = kind).map
    fun x => (x.2.key.tmdbId, x.2.keywordId)

/-- **A catalog**, as the rows it is computed from. -/
structure Catalog where
  rows : List CatalogRow
  cast : List (ℤ × ℤ)
  crew : List (ℤ × ℤ)
  kw : List (ℤ × ℤ)
  deriving DecidableEq

/-- The rows make a catalog when every vector has the length it says, and all have the same. -/
def assemble (rows : List CatalogRow) (cast crew kw : List (ℤ × ℤ)) : Option Catalog :=
  if (rows.all fun r => r.embedding.length = r.dim) &&
      rows.all fun r => rows.head?.any fun r₀ => r.embedding.length = r₀.embedding.length
  then some ⟨rows, cast, crew, kw⟩ else none

/-- **The catalog of the tables.** -/
def buildCatalog (kind : Kind) (t : TitleTables) (features : RowTable FeatureRow) :
    Option Catalog :=
  assemble (catalogRows kind t features) (castPairs kind t) (crewPairs kind t)
    (keywordPairs kind t)

/-! ### The statements of the weights -/

inductive Credits
  | cast | crew
  deriving DecidableEq

/-- What a table of weights is cached under. -/
structure IdfKey where
  kind : Kind
  which : Credits
  castTopn : ℤ
  deriving DecidableEq

/-- The number of cast counts for the cast only. -/
def idfKey (kind : Kind) (which : Credits) (castTopn : ℤ) : IdfKey :=
  ⟨kind, which, match which with | .cast => castTopn | .crew => 0⟩

/-- A credit, as the weights see it: whose, which title's, and whether it counts. -/
structure Credit where
  key : Key
  personId : ℤ
  counts : Bool
  deriving DecidableEq

def CastRow.credit (castTopn : ℤ) (r : CastRow) : Credit :=
  ⟨r.key, r.personId, r.orderIdx.any (· < castTopn)⟩

def CrewRow.credit (r : CrewRow) : Credit := ⟨r.key, r.personId, keyCrewJobs.contains r.job⟩

/-- `title_cast` or `title_crew`. -/
def TitleTables.credits (t : TitleTables) (key : IdfKey) : RowTable Credit :=
  match key.which with
  | .cast => t.titleCast.update (CastRow.credit key.castTopn)
  | .crew => t.titleCrew.update CrewRow.credit

def Children.credits (c : Children) (title : Key) (key : IdfKey) : List Credit :=
  match key.which with
  | .cast => c.cast.map fun p => CastRow.credit key.castTopn ⟨title, p.1, p.2⟩
  | .crew => c.crew.map fun p => CrewRow.credit ⟨title, p.1, p.2⟩

/-- `SELECT person_id, COUNT(DISTINCT tmdb_id) … WHERE kind = ? … GROUP BY person_id` -/
def dfRows (kind : Kind) (credits : RowTable Credit) : List (ℤ × ℕ) :=
  let counted := (credits.filter fun x => x.2.key.kind = kind && x.2.counts).map
    fun x => (x.2.personId, x.2.key.tmdbId)
  (counted.map Prod.fst).dedup.map fun p =>
    (p, ((counted.filter fun x => x.1 = p).map Prod.snd).dedup.length)

def TitleTables.titleKeys (t : TitleTables) : RowTable Key := t.titles.update TitleRow.key

/-- `SELECT COUNT(*) FROM titles WHERE kind = ?` -/
def titleCount (kind : Kind) (titleKeys : RowTable Key) : ℕ :=
  titleKeys.countP fun x => x.2.kind = kind

/-- **A table of weights**, as what it is computed from: the titles of each person, and the titles
of the kind, at least one. -/
structure Idf where
  df : List (ℤ × ℕ)
  titles : ℕ
  deriving DecidableEq

def weigh (df : List (ℤ × ℕ)) (n : ℕ) : Idf := ⟨df, if n = 0 then 1 else n⟩

/-- **The weights of the tables.** -/
def idfOf (key : IdfKey) (titleKeys : RowTable Key) (credits : RowTable Credit) : Idf :=
  weigh (dfRows key.kind credits) (titleCount key.kind titleKeys)

/-! ### Children belong to titles -/

def TitleTables.HasTitle (t : TitleTables) (key : Key) : Prop := ∃ x ∈ t.titles, x.2.key = key

def TitleTables.Owns {ρ : Type*} (t : TitleTables) (keyOf : ρ → Key) (rows : RowTable ρ) : Prop :=
  ∀ x ∈ rows, t.HasTitle (keyOf x.2)

/-- **Every child is a title's.** -/
structure TitleTables.Owned (t : TitleTables) : Prop where
  genres : t.Owns GenreRow.key t.titleGenres
  keywords : t.Owns KeywordRow.key t.titleKeywords
  cast : t.Owns CastRow.key t.titleCast
  crew : t.Owns CrewRow.key t.titleCrew

section Owned

variable {t : TitleTables} {key : Key} {d : Detail} {now : Stamp}

theorem TitleTables.Owns.remove_eq_self {ρ : Type*} {keyOf : ρ → Key} {rows : RowTable ρ}
    (h : t.Owns keyOf rows) (hkey : ¬ t.HasTitle key) :
    rows.remove (fun r => keyOf r = key) = rows := by
  refine RowTable.remove_eq_self fun x hx => ?_
  refine decide_eq_false ?_
  rintro rfl
  exact hkey (h x hx)

theorem TitleTables.hasTitle_upsertTitle (h : t.HasTitle key ∨ key = d.key) :
    (t.upsertTitle d now).HasTitle key := by
  simp only [HasTitle, TitleTables.upsertTitle]
  rcases RowTable.upsert_cases (fun r : TitleRow => r.key = d.key) ⟨d.key, d.columns, now⟩
    t.titles with ⟨⟨y, hy, hp⟩, heq⟩ | ⟨-, heq⟩ <;> rw [heq]
  · obtain ⟨x, hx, rfl⟩ : t.HasTitle key := by
      rcases h with h | rfl
      · exact h
      · exact ⟨y, hy, of_decide_eq_true hp⟩
    refine ⟨_, List.mem_map_of_mem hx, ?_⟩
    by_cases hx' : x.2.key = d.key <;> simp [hx']
  · rcases h with ⟨x, hx, rfl⟩ | rfl
    · exact ⟨x, List.mem_append_left _ hx, rfl⟩
    · exact ⟨_, List.mem_append_right _ (List.mem_singleton_self _), rfl⟩

theorem TitleTables.Owns.upsertTitle {ρ : Type*} {keyOf : ρ → Key} {rows : RowTable ρ}
    {vs : List ρ} (h : t.Owns keyOf rows) (hvs : ∀ v ∈ vs, keyOf v = d.key) :
    (t.upsertTitle d now).Owns keyOf (rows.rewrite (fun r => keyOf r = d.key) vs) := by
  rintro x hx
  rcases RowTable.mem_rewrite hx with ⟨hx, -⟩ | hx
  · exact hasTitle_upsertTitle (.inl (h x hx))
  · exact hasTitle_upsertTitle (.inr (hvs _ hx))

theorem TitleTables.Owns.deleteTitle {ρ : Type*} {keyOf : ρ → Key} {rows : RowTable ρ}
    (h : t.Owns keyOf rows) :
    (t.deleteTitle key).Owns keyOf (rows.remove fun r => keyOf r = key) := by
  rintro x hx
  obtain ⟨hx, hp⟩ := RowTable.mem_remove.mp hx
  obtain ⟨y, hy, heq⟩ := h x hx
  have hp' : decide (y.2.key = key) = false := by rwa [heq]
  have hmem : y ∈ t.titles.remove fun r => r.key = key := RowTable.mem_remove.mpr ⟨hy, hp'⟩
  exact ⟨y, hmem, heq⟩

theorem TitleTables.Owned.upsertTitle (h : t.Owned) : (t.upsertTitle d now).Owned where
  genres := h.genres.upsertTitle (List.forall_mem_map.mpr fun _ _ => rfl)
  keywords := h.keywords.upsertTitle (List.forall_mem_map.mpr fun _ _ => rfl)
  cast := h.cast.upsertTitle (List.forall_mem_map.mpr fun _ _ => rfl)
  crew := h.crew.upsertTitle (List.forall_mem_map.mpr fun _ _ => rfl)

theorem TitleTables.Owned.deleteTitle (h : t.Owned) : (t.deleteTitle key).Owned where
  genres := h.genres.deleteTitle
  keywords := h.keywords.deleteTitle
  cast := h.cast.deleteTitle
  crew := h.crew.deleteTitle

theorem TitleTables.Owned.deleteTitle_eq_self (h : t.Owned) (hkey : ¬ t.HasTitle key) :
    t.deleteTitle key = t := by
  have htitles : t.titles.remove (fun r => r.key = key) = t.titles :=
    RowTable.remove_eq_self fun x hx => by simpa using fun heq => hkey ⟨x, hx, heq⟩
  rw [TitleTables.deleteTitle, htitles]
  simp only [writeChildren, Children.none, List.map_nil, RowTable.rewrite_nil]
  rw [h.genres.remove_eq_self hkey, h.keywords.remove_eq_self hkey, h.cast.remove_eq_self hkey,
    h.crew.remove_eq_self hkey]

end Owned

/-- **The transactions keep the children with their titles.** -/
theorem TitleTables.Owned.commit {db db' : CatalogDb} {op : Op} (h : db.tables.Owned)
    (hc : db.commit op = some db') : db'.tables.Owned := by
  rcases op with ⟨d, now⟩ | ⟨chunk, computedAt⟩ | identity
  · simp only [CatalogDb.commit, CatalogDb.persistDetail] at hc
    split at hc
    · obtain ⟨-, rfl⟩ := Option.ite_none_right_eq_some.mp hc |>.imp id Option.some.inj
      exact h.deleteTitle
    · obtain ⟨-, rfl⟩ := Option.ite_none_right_eq_some.mp hc |>.imp id Option.some.inj
      exact h.upsertTitle
  · obtain ⟨-, rfl⟩ := Option.ite_none_right_eq_some.mp hc |>.imp id Option.some.inj
    exact h
  · obtain rfl := Option.some.inj hc
    exact h

end EmeraldExchange.Recommender.TitleDb
