import Mathlib.Data.Finset.Dedup
import Mathlib.Algebra.Ring.Int.Defs
import EmeraldExchange.Lib.AutoTable
import EmeraldExchange.Lib.Decimal
import EmeraldExchange.Lib.Program
import EmeraldExchange.Lib.Table
import EmeraldExchange.MediaCore.Filename

/-!
# The scan of the video library

`scan_once` in `crates/media-core/src/scanner.rs`: the files under the roots are walked, and each
is looked up by its path. A file whose size and time are as they were is not probed again, only
what its title lacks is fetched; any other is probed and indexed. Then the rows of files that are
gone are deleted, with the titles they backed, and with these the progress of the viewers.

Every statement stands for itself: there is no transaction, and a statement that fails leaves what
the ones before it wrote. A process that stops is one whose statements all fail from then on. A
scan sees one state of the disk, at one time.

Of a row only the columns are kept that some statement reads. The keys that refer to another table
are not checked where a row is written: that the row they name is there is proved of the programs.
-/

namespace EmeraldExchange.MediaCore

open Program

/-! ### The tables -/

abbrev Path := List String

/-- A row of `media_files`. -/
structure MediaFile where
  path : Path
  sizeBytes : ℕ
  mtime : String
  videoHeight : Option ℤ
  deriving DecidableEq

/-- A negative cache: how often something failed, and when it last did. -/
structure Misses where
  attempts : ℕ := 0
  failedAt : Option String := none
  deriving DecidableEq

/-- A row of `movies`. -/
structure Movie where
  tmdbId : Option ℤ
  contentRating : Option String
  fileId : ℕ
  rating : Misses := {}
  matching : Misses := {}
  deriving DecidableEq

/-- A row of `shows`. -/
structure Show where
  tmdbId : Option ℤ
  normTitle : String
  contentRating : Option String
  deriving DecidableEq

/-- A row of `episodes`. -/
structure Episode where
  showId : ℕ
  season : ℕ
  episode : ℕ
  title : Option String
  airDate : Option String
  fileId : ℕ
  lookup : Misses := {}
  deriving DecidableEq

/-- The kinds of `media_watch_state`. -/
inductive WatchKind
  | movie
  | episode
  | track
  | audiobook
  | podcastEpisode
  | video
  deriving DecidableEq

/-- A row of `media_watch_state`, by its key. -/
structure WatchState where
  sub : String
  kind : WatchKind
  mediaId : ℕ
  deriving DecidableEq

/-- A row of `probe_failures`. -/
structure ProbeFailure where
  sizeBytes : ℕ
  mtime : String
  attempts : ℕ
  failedAt : String
  deriving DecidableEq

/-- **The tables that a scan reads and writes.** -/
structure MediaDb where
  files : AutoTable MediaFile := ∅
  movies : AutoTable Movie := ∅
  shows : AutoTable Show := ∅
  episodes : AutoTable Episode := ∅
  /-- The tracks, audiobooks and videos, by the file that backs them. -/
  tracks : AutoTable ℕ := ∅
  audiobooks : AutoTable ℕ := ∅
  videos : AutoTable ℕ := ∅
  podcastEpisodes : List ℕ := []
  watch : List WatchState := []
  probeFailures : Table Path ProbeFailure := ∅

def MediaDb.deleteFile (id : ℕ) (db : MediaDb) : MediaDb :=
  { db with
    files := db.files.remove fun x => x.1 = id
    movies := db.movies.remove fun x => x.2.fileId = id
    episodes := db.episodes.remove fun x => x.2.fileId = id
    tracks := db.tracks.remove fun x => x.2 = id
    audiobooks := db.audiobooks.remove fun x => x.2 = id
    videos := db.videos.remove fun x => x.2 = id }

/-- The numbers that a watch state of some kind may name. -/
def MediaDb.ids (db : MediaDb) : WatchKind → List ℕ
  | .movie => db.movies.rows.map Prod.fst
  | .episode => db.episodes.rows.map Prod.fst
  | .track => db.tracks.rows.map Prod.fst
  | .audiobook => db.audiobooks.rows.map Prod.fst
  | .podcastEpisode => db.podcastEpisodes
  | .video => db.videos.rows.map Prod.fst

/-! ### What a scan goes by -/

inductive TmdbFetch (α : Type)
  | found (a : α)
  | definitiveMiss
  | transient

def TmdbFetch.found? {α : Type} : TmdbFetch α → Option α
  | .found a => some a
  | _ => none

structure TmdbMatch where
  tmdbId : ℤ
  contentRating : Option String
  deriving DecidableEq

structure TmdbEpisode where
  title : Option String
  airDate : Option String
  deriving DecidableEq

/-- **TMDB**: an answer to each question. -/
structure Tmdb where
  /-- `match_movie_outcome`; `match_movie` is what it found. -/
  matchMovie : String → Option ℕ → TmdbFetch TmdbMatch
  movieContentRating : ℤ → TmdbFetch String
  matchShow : String → Option TmdbMatch
  episode : ℤ → ℕ → ℕ → TmdbFetch TmdbEpisode

structure LibraryRoot where
  path : Path
  kind : RootKind
  deriving DecidableEq

structure DiskFile where
  path : Path
  sizeBytes : ℕ
  mtime : String
  /-- The height of the picture, if there is one, unless the probe fails. -/
  probe : Option (Option ℤ)
  /-- Its canonical path is under some root. -/
  contained : Bool := true
  deriving DecidableEq

structure WalkedFile where
  rootKind : RootKind
  file : DiskFile
  deriving DecidableEq

structure Library where
  unicode : Unicode
  roots : List LibraryRoot
  /-- `to_rfc3339`, of nanoseconds -/
  rfc3339 : ℤ → String
  /-- `parse_from_rfc3339` -/
  parseRfc3339 : String → Option ℤ

structure Moment where
  disk : List DiskFile
  /-- `is_dir`, of the roots -/
  mounted : Path → Bool := fun _ => true
  /-- What the walk cannot read. -/
  unreadable : List Path := []
  tmdb : Tmdb
  now : ℤ
  /-- The statements that fail, by their number. -/
  fails : ℕ → Bool := fun _ => false

/-- **What a scan goes by.** -/
structure ScanEnv extends Library, Moment

/-- The state of a scan: the tables, and how many statements there were. -/
structure Scanning where
  db : MediaDb
  statements : ℕ := 0

abbrev Scan := Program Scanning

variable (env : ScanEnv)

/-- **A statement**, which may be refused by a constraint. -/
def statement {α : Type} (f : MediaDb → Option (α × MediaDb)) : Scan α := attempt fun s =>
  if env.fails s.statements then (none, ⟨s.db, s.statements + 1⟩)
  else match f s.db with
    | some (a, db) => (some a, ⟨db, s.statements + 1⟩)
    | none => (none, ⟨s.db, s.statements + 1⟩)

def select {α : Type} (f : MediaDb → α) : Scan α := statement env fun db => some (f db, db)

/-- A statement that reads a row that has to be there. -/
def fetchOne {α : Type} (f : MediaDb → Option α) : Scan α :=
  statement env fun db => (f db).map (·, db)

def execute (f : MediaDb → Option MediaDb) : Scan Unit :=
  statement env fun db => (f db).map ((), ·)

def logged {α : Type} (p : Scan α) : Scan Unit := fun s => (some (), (p s).2)

/-- A program that goes on where its first part fails, with nothing to do. -/
def recover {α : Type} (p : Scan α) (f : α → Scan Unit) : Scan Unit := fun s =>
  match p s with
  | (none, t) => (some (), t)
  | (some a, t) => f a t

/-- `exists`, for a file or a folder. -/
def ScanEnv.onDisk (path : Path) : Bool := env.disk.any fun f => path.isPrefixOf f.path

/-- `try_exists`, where what cannot be read counts as there. -/
def ScanEnv.seemsThere (path : Path) : Bool :=
  env.onDisk path || env.unreadable.any fun p => p.isPrefixOf path

/-! ### Negative caches -/

/-- **`should_attempt_episode_lookup`**: thirty days after a miss, and not after six of them. -/
def shouldAttemptEpisodeLookup (titlePresent : Bool) (misses : Misses) : Bool :=
  if titlePresent then false
  else if 6 ≤ misses.attempts then false
  else
    match misses.failedAt with
    | none => true
    | some ts =>
      match env.parseRfc3339 ts with
      | some t => 30 * 86400 * 1000000000 ≤ env.now - t
      | none => true

def Misses.record (misses : Misses) : Misses :=
  ⟨misses.attempts + 1, some (env.rfc3339 env.now)⟩

def MediaDb.episodeRow (showId season episode : ℕ) (db : MediaDb) : Option (ℕ × Episode) :=
  db.episodes.find? fun e => e.showId = showId ∧ e.season = season ∧ e.episode = episode

/-- `episode_lookup_due` -/
def episodeLookupDue (showId season episode : ℕ) : Scan Bool := do
  match ← select env (MediaDb.episodeRow showId season episode) with
  | none => pure true
  | some (_, e) => pure (shouldAttemptEpisodeLookup env e.title.isSome e.lookup)

/-- `record_episode_lookup_failure` -/
def recordEpisodeLookupFailure (showId season episode : ℕ) : Scan Unit :=
  execute env fun db => some { db with
    episodes := db.episodes.update
      (fun x => x.2.showId = showId ∧ x.2.season = season ∧ x.2.episode = episode)
      fun e => { e with lookup := e.lookup.record env } }

/-- `probe_lookup_due`, with the same thirty days and six attempts. -/
def probeLookupDue (path : Path) (sizeBytes : ℕ) (mtime : String) : Scan Bool := do
  match ← select env fun db => db.probeFailures.lookup path with
  | none => pure true
  | some failure =>
    if failure.sizeBytes ≠ sizeBytes ∨ failure.mtime ≠ mtime then pure true
    else if 6 ≤ failure.attempts then pure false
    else
      match env.parseRfc3339 failure.failedAt with
      | some t => pure (30 * 86400 * 1000000000 ≤ env.now - t)
      | none => pure true

/-- `record_probe_failure` -/
def recordProbeFailure (path : Path) (sizeBytes : ℕ) (mtime : String) : Scan Unit :=
  execute env fun db =>
    let attempts := match db.probeFailures.lookup path with
      | some f => if f.sizeBytes = sizeBytes ∧ f.mtime = mtime then f.attempts + 1 else 1
      | none => 1
    some { db with probeFailures :=
      db.probeFailures.insert path ⟨sizeBytes, mtime, attempts, env.rfc3339 env.now⟩ }

/-- `clear_probe_failure` -/
def clearProbeFailure (path : Path) : Scan Unit :=
  execute env fun db => some { db with probeFailures := db.probeFailures.erase path }

/-! ### Files -/

def MediaDb.fileRow (path : Path) (db : MediaDb) : Option (ℕ × MediaFile) :=
  db.files.find? fun f => f.path = path

/-- `upsert_media_file` -/
def upsertMediaFile (file : DiskFile) (height : Option ℤ) : Scan ℕ := do
  let row : MediaFile := ⟨file.path, file.sizeBytes, file.mtime, height⟩
  execute env fun db => some { db with
    files := db.files.upsert (fun f => f.path = file.path) (fun _ => row) row }
  fetchOne env fun db => (db.fileRow file.path).map Prod.fst

/-- `file_video_height` -/
def fileVideoHeight (fileId : ℕ) : Scan (Option ℤ) :=
  select env fun db => (db.files.get? fileId).bind MediaFile.videoHeight

/-! ### Films -/

def existingMovie (fileId : ℕ) (tmdb : Option TmdbMatch) : Scan (Option ℕ) := do
  let ofFile : Scan (Option ℕ) :=
    select env fun db => (db.movies.find? fun m => m.fileId = fileId).map Prod.fst
  match tmdb with
  | none => ofFile
  | some t =>
    let ofMatch ← select env fun db =>
      (db.movies.find? fun m => m.tmdbId = some t.tmdbId).map Prod.fst
    match ofMatch with
    | some id => pure (some id)
    | none => ofFile

/-- **`upsert_movie`**: a film is known by its match, then by its file. It follows a file only when
the one it has is gone. -/
def upsertMovie (fileId : ℕ) (tmdb : Option TmdbMatch) : Scan Unit := do
  let tmdbId := tmdb.map TmdbMatch.tmdbId
  let contentRating := tmdb.bind TmdbMatch.contentRating
  match ← existingMovie env fileId tmdb with
  | some id =>
    let current ← select env fun db =>
      (db.movies.get? id).bind fun m => (db.files.get? m.fileId).map MediaFile.path
    let follow := match current with
      | some path => !env.seemsThere path
      | none => true
    execute env fun db => some { db with
      movies := db.movies.updateRow id fun m => { m with
        tmdbId := tmdbId.or m.tmdbId
        contentRating := contentRating.or m.contentRating
        fileId := if follow then fileId else m.fileId } }
  | none =>
    execute env fun db =>
      if tmdbId.isSome ∧ (db.movies.find? fun m => m.tmdbId = tmdbId).isSome then none
      else some { db with movies := db.movies.insert ⟨tmdbId, contentRating, fileId, {}, {}⟩ }

/-! ### Shows -/

/-- `{key} tmdb{tid}` -/
def ownKey (key : String) (tmdbId : ℤ) : String :=
  String.ofList (key.toList ++ " tmdb".toList ++ Decimal.intText tmdbId)

/-- The show of a match or a key, and the key a new one is to have. -/
def existingShow (key : String) (tmdb : Option TmdbMatch) : Scan (Option ℕ × String) := do
  let byKey : Scan (Option (ℕ × Show)) :=
    select env fun db => db.shows.find? fun s => s.normTitle = key
  match tmdb with
  | none => do
    let row ← byKey
    pure (row.map Prod.fst, key)
  | some t =>
    let ofMatch ← select env fun db =>
      (db.shows.find? fun s => s.tmdbId = some t.tmdbId).map Prod.fst
    match ofMatch with
    | some id => pure (some id, key)
    | none =>
      -- a row that is matched to another series stays put
      match ← byKey with
      | some (id, row) =>
        if row.tmdbId.isNone then pure (some id, key)
        else pure (none, ownKey key t.tmdbId)
      | none => pure (none, key)

/-- **`upsert_show`** -/
def upsertShow (displayTitle : String) (tmdb : Option TmdbMatch) : Scan ℕ := do
  let tmdbId := tmdb.map TmdbMatch.tmdbId
  let contentRating := tmdb.bind TmdbMatch.contentRating
  let (existing, key) ← existingShow env (normalizeShowName env.unicode displayTitle) tmdb
  match existing with
  | some id =>
    if tmdb.isSome then
      execute env fun db => some { db with
        shows := db.shows.updateRow id fun s => { s with
          tmdbId := tmdbId.or s.tmdbId
          contentRating := contentRating.or s.contentRating } }
    else pure ()
    pure id
  | none =>
    execute env fun db =>
      if (tmdbId.isSome ∧ (db.shows.find? fun s => s.tmdbId = tmdbId).isSome) ∨
          (db.shows.find? fun s => s.normTitle = key).isSome then none
      else some { db with shows := db.shows.insert ⟨tmdbId, key, contentRating⟩ }
    fetchOne env fun db => (db.shows.find? fun s => s.normTitle = key).map Prod.fst

/-! ### Episodes -/

/-- **`upsert_episode`**: of two files of one episode the one with the higher picture backs it. -/
def upsertEpisode (showId season episode fileId : ℕ) (tmdb : Option TmdbEpisode) : Scan Unit := do
  let title := tmdb.bind TmdbEpisode.title
  let airDate := tmdb.bind TmdbEpisode.airDate
  match ← select env (MediaDb.episodeRow showId season episode) with
  | some (id, existing) =>
    let keepIncoming ←
      if fileId = existing.fileId then pure true
      else do
        let incoming ← fileVideoHeight env fileId
        let height ← fileVideoHeight env existing.fileId
        pure (height.getD 0 < incoming.getD 0 : Bool)
    execute env fun db => some { db with
      episodes := db.episodes.updateRow id fun e => { e with
        fileId := if keepIncoming then fileId else existing.fileId
        title := title.or e.title
        airDate := airDate.or e.airDate } }
  | none =>
    execute env fun db =>
      if (db.episodeRow showId season episode).isSome then none
      else some { db with
        episodes := db.episodes.insert ⟨showId, season, episode, title, airDate, fileId, {}⟩ }

/-! ### Indexing -/

/-- **`index_file`** -/
def indexFile (file : DiskFile) (height : Option ℤ) (parsed : ParsedName) : Scan Unit := do
  let fileId ← upsertMediaFile env file height
  match parsed with
  | .movie title year => upsertMovie env fileId (env.tmdb.matchMovie title year).found?
  | .episode show' season episode =>
    let m := env.tmdb.matchShow show'
    let showId ← upsertShow env show' m
    let due ← episodeLookupDue env showId season episode
    let ep := match m, due with
      | some found, true => env.tmdb.episode found.tmdbId season episode
      | _, _ => .transient
    upsertEpisode env showId season episode fileId ep.found?
    match ep with
    | .definitiveMiss => recordEpisodeLookupFailure env showId season episode
    | _ => pure ()
  | .unknown => pure ()

/-- `apply_episode_backfill` -/
def applyEpisodeBackfill (showId season episode fileId : ℕ) (ep : TmdbFetch TmdbEpisode) :
    Scan Unit :=
  match ep with
  | .definitiveMiss => recordEpisodeLookupFailure env showId season episode
  | .transient => pure ()
  | .found e => do
    let existing ← select env fun db =>
      (db.episodeRow showId season episode).map fun x => x.2.fileId
    upsertEpisode env showId season episode (existing.getD fileId) (some e)

def backfillMovie (fileId : ℕ) (title : String) (year : Option ℕ) : Scan Unit := do
  let row ← select env fun db => db.movies.find? fun m => m.fileId = fileId
  let ofFile : ℕ × Movie → Bool := fun x => x.2.fileId = fileId
  match row.bind fun x => x.2.tmdbId.map fun tmdbId => (tmdbId, x.2) with
  | some (tmdbId, m) =>
    if m.contentRating.isSome ∨ !shouldAttemptEpisodeLookup env false m.rating then pure ()
    else
      match env.tmdb.movieContentRating tmdbId with
      | .found r =>
        execute env fun db => some { db with
          movies := db.movies.update ofFile fun m => { m with contentRating := some r } }
      | .definitiveMiss =>
        execute env fun db => some { db with
          movies := db.movies.update ofFile fun m => { m with rating := m.rating.record env } }
      | .transient => pure ()
  | none =>
    let misses := (row.map fun x => x.2.matching).getD {}
    if !shouldAttemptEpisodeLookup env false misses then pure ()
    else
      match env.tmdb.matchMovie title year with
      | .found m => upsertMovie env fileId (some m)
      | .definitiveMiss =>
        execute env fun db => some { db with
          movies := db.movies.update ofFile fun m => { m with matching := m.matching.record env } }
      | .transient => pure ()

/-- `stored_show_match`, where the show is matched and rated. -/
def storedShowMatch (displayTitle : String) (db : MediaDb) : Option (ℕ × ℤ) :=
  (db.shows.find? fun s => s.normTitle = normalizeShowName env.unicode displayTitle).bind fun x =>
    if x.2.contentRating.isSome then x.2.tmdbId.map fun tmdbId => (x.1, tmdbId) else none

/-- The backfill of an episode. A show that is matched and rated is not searched again. -/
def backfillEpisode (fileId : ℕ) (show' : String) (season episode : ℕ) : Scan Unit := do
  match ← select env (storedShowMatch env show') with
  | some (showId, tmdbId) =>
    if ← episodeLookupDue env showId season episode then
      applyEpisodeBackfill env showId season episode fileId
        (env.tmdb.episode tmdbId season episode)
    else pure ()
  | none =>
    let m := env.tmdb.matchShow show'
    let showId ← upsertShow env show' m
    if ← episodeLookupDue env showId season episode then
      applyEpisodeBackfill env showId season episode fileId
        (match m with
          | some found => env.tmdb.episode found.tmdbId season episode
          | none => .transient)
    else pure ()

/-- **`backfill_metadata`**: what the title of an unchanged file lacks. -/
def backfillMetadata (path : Path) (parsed : ParsedName) : Scan Unit := do
  match ← select env fun db => (db.fileRow path).map Prod.fst with
  | none => pure ()
  | some fileId =>
    match parsed with
    | .movie title year => backfillMovie env fileId title year
    | .episode show' season episode => backfillEpisode env fileId show' season episode
    | .unknown => pure ()

/-! ### The walk -/

/-- `VIDEO_EXTENSIONS` -/
def videoExtensions : List String := ["mkv", "mp4", "m4v", "mov", "avi", "ts", "webm"]

/-- `is_video_file` -/
def isVideoFile (name : String) : Bool :=
  '.' ∈ name.toList &&
    String.ofList ((name.toList.reverse.takeWhile (· ≠ '.')).reverse.map Char.toLower) ∈
      videoExtensions

/-- `EXTRAS_DIRS` -/
def extrasDirs : List String :=
  ["featurettes", "behind the scenes", "deleted scenes", "interviews", "scenes", "shorts",
    "trailers", "extras", "other", "sample", "samples", "plex versions"]

/-- **`in_extras_dir`**: some folder below the root is one of these, or hidden. -/
def inExtrasDir (path root : Path) : Bool :=
  let rel := if root.isPrefixOf path then path.drop root.length else path
  rel.dropLast.any fun s =>
    s.toList.head? = some '.' || String.ofList (env.unicode.lower s.toList) ∈ extrasDirs

def listed (root : LibraryRoot) (f : DiskFile) : Bool :=
  env.mounted root.path && root.path.isPrefixOf f.path && root.path ≠ f.path &&
    (env.unreadable.all fun p => !(root.path.isPrefixOf p && p.isPrefixOf f.path)) &&
    isVideoFile (f.path.getLastD "") && !inExtrasDir env f.path root.path && f.contained

/-- **`walk_roots`**, in one order. -/
def walkRoots : List WalkedFile :=
  env.roots.flatMap fun root => (env.disk.filter (listed env root)).map fun f => ⟨root.kind, f⟩

/-- The roots that were there and could be read. -/
def prunableRoots : List LibraryRoot :=
  env.roots.filter fun root =>
    env.mounted root.path && env.unreadable.all fun p => !root.path.isPrefixOf p

/-! ### The scan -/

def WalkedFile.parsed (w : WalkedFile) : ParsedName :=
  classify env.unicode w.rootKind w.file.path (w.file.path.getLastD "")

def DiskFile.unchanged (file : DiskFile) (row : MediaFile) : Bool :=
  row.sizeBytes = file.sizeBytes && row.mtime = file.mtime

def scanChanged (w : WalkedFile) : Scan Unit := do
  let file := w.file
  if ← probeLookupDue env file.path file.sizeBytes file.mtime then
    match file.probe with
    | none => recordProbeFailure env file.path file.sizeBytes file.mtime
    | some height =>
      clearProbeFailure env file.path
      logged (indexFile env file height (w.parsed env))
  else pure ()

/-- **One file of the walk**: it fails only where the whole scan does. -/
def scanFile (w : WalkedFile) : Scan Unit :=
  recover (select env (MediaDb.fileRow w.file.path)) fun row =>
    if row.any fun x => w.file.unchanged x.2 then
      logged (backfillMetadata env w.file.path (w.parsed env))
    else scanChanged env w

def missingFiles (rows : List (ℕ × MediaFile)) : List ℕ :=
  (rows.filter fun x => (prunableRoots env).any fun root => root.path.isPrefixOf x.2.path &&
    (inExtrasDir env x.2.path root.path || !env.onDisk x.2.path)).map Prod.fst

/-- `DELETE`, for each of some rows, and whether some row was deleted. -/
def deleteFiles : List ℕ → Scan Bool
  | [] => pure false
  | id :: ids => do
    let removed ← statement env fun db => some ((db.files.get? id).isSome, db.deleteFile id)
    let more ← deleteFiles ids
    pure (removed || more)

/-- **`prune_missing_files`** -/
def pruneMissingFiles : Scan Unit := do
  if prunableRoots env = [] then pure ()
  else
    let rows ← select env fun db => db.files.rows
    let removed ← deleteFiles env (missingFiles env rows)
    if removed then
      execute env fun db => some { db with
        shows := db.shows.remove fun x => !db.episodes.rows.any fun e => e.2.showId = x.1 }
    else pure ()

/-- **`gc_orphan_watch_state`** -/
def gcOrphanWatchState : Scan Unit :=
  execute env fun db => some { db with
    watch := db.watch.filter fun w => w.mediaId ∈ db.ids w.kind }

def reconcile : Scan Unit :=
  if env.roots = [] then pure ()
  else do
    logged (pruneMissingFiles env)
    logged (gcOrphanWatchState env)

def scanFiles : List WalkedFile → Scan Unit
  | [] => pure ()
  | w :: ws => do
    scanFile env w
    scanFiles ws

/-- **`scan_once`**, in the order of a walk. -/
def scanOnce (walk : List WalkedFile) : Scan Unit := do
  scanFiles env walk
  reconcile env

end EmeraldExchange.MediaCore
