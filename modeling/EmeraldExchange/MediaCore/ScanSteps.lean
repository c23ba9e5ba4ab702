import Mathlib.Logic.Relation
import EmeraldExchange.MediaCore.Scanner

/-!
# What the visit of a file may write

A scan visits one file of the walk after another. Whatever a visit does, and wherever it breaks
off, the tables after it come from those before by some writes of ten kinds
(`Change`), each of which says of the rows it touches what the code has
read before it writes. So what all these writes preserve is preserved by a visit
(`changes_of_scanFile`), and the code is looked through only once.

A write of a file goes to the row of its path, and no row of a file is lost. A film is written to
the row of its match, or of its file if no row has its match. An episode is written to a show of
which something is known: what that is is a parameter, since a show that is found by its key alone
is only known to have this key.
-/

namespace EmeraldExchange.MediaCore

open Program Relation

/-! ### Rules for programs of statements -/

section rules

variable {env : ScanEnv} {α β : Type} {p : Scan α} {f : α → Scan β} {db : MediaDb}
  {Q Q' : α → MediaDb → Prop} {R : β → MediaDb → Prop} {E E' : MediaDb → Prop}

/-- **A program ends** with a value and tables that satisfy `Q`, or breaks off with tables that
satisfy `E`, whatever the number of its first statement. -/
def Ends (p : Scan α) (Q : α → MediaDb → Prop) (E : MediaDb → Prop) (db : MediaDb) : Prop :=
  ∀ n, Wp p (fun a s => Q a s.db) (fun s => E s.db) ⟨db, n⟩

def ScanEnv.Faulty (env : ScanEnv) : Prop := ∃ n, env.fails n = true

theorem ends_pure {a : α} (h : Q a db) : Ends (pure a) Q E db := fun _ => wp_pure.mpr h

theorem ends_bind (h : Ends p (fun a => Ends (f a) R E) E db) : Ends (p >>= f) R E db :=
  fun n => wp_bind.mpr ((h n).mono (fun _ s hs => hs s.statements) fun _ hs => hs)

theorem Ends.mono (h : Ends p Q E db) (hQ : ∀ a db', Q a db' → Q' a db')
    (hE : ∀ db', E db' → E' db') : Ends p Q' E' db :=
  fun n => (h n).mono (fun a s => hQ a s.db) fun s => hE s.db

theorem ends_statement {g : MediaDb → Option (α × MediaDb)}
    (hQ : ∀ a db', g db = some (a, db') → Q a db') (hE : env.Faulty ∨ g db = none → E db) :
    Ends (statement env g) Q E db := by
  intro n
  rw [statement]
  by_cases hfails : env.fails n = true
  · simp only [Wp, attempt, hfails, if_true]
    exact hE (.inl ⟨n, hfails⟩)
  · simp only [Wp, attempt, hfails]
    rcases hg : g db with _ | ⟨a, db'⟩
    · exact hE (.inr hg)
    · exact hQ a db' hg

theorem ends_select {g : MediaDb → α} (hQ : Q (g db) db) (hE : env.Faulty → E db) :
    Ends (select env g) Q E db :=
  ends_statement (fun a db' h => by cases h; exact hQ) fun h => hE (h.resolve_right (by rintro ⟨⟩))

theorem ends_fetchOne {g : MediaDb → Option α} (hQ : ∀ a, g db = some a → Q a db)
    (hE : env.Faulty ∨ g db = none → E db) : Ends (fetchOne env g) Q E db := by
  refine ends_statement (fun a db' h => ?_) fun h => hE (h.imp_right Option.map_eq_none_iff.mp)
  obtain ⟨b, hb, heq⟩ := Option.map_eq_some_iff.mp h
  obtain ⟨rfl, rfl⟩ := Prod.mk.inj heq
  exact hQ b hb

theorem ends_execute {g : MediaDb → Option MediaDb} {Q : Unit → MediaDb → Prop}
    (hQ : ∀ db', g db = some db' → Q () db') (hE : env.Faulty ∨ g db = none → E db) :
    Ends (execute env g) Q E db := by
  refine ends_statement (fun a db' h => ?_) fun h => hE (h.imp_right Option.map_eq_none_iff.mp)
  obtain ⟨b, hb, heq⟩ := Option.map_eq_some_iff.mp h
  obtain ⟨-, rfl⟩ := Prod.mk.inj heq
  exact hQ b hb

theorem ends_logged {Q : Unit → MediaDb → Prop} (h : Ends p (fun _ => Q ()) (Q ()) db) :
    Ends (logged p) Q E db := by
  intro n
  have hp := h n
  rw [Wp] at hp ⊢
  rw [logged]
  rcases hpn : p ⟨db, n⟩ with ⟨_ | a, s⟩ <;> rw [hpn] at hp <;> exact hp

theorem ends_recover {f : α → Scan Unit} {Q : Unit → MediaDb → Prop}
    (h : Ends p (fun a => Ends (f a) Q E) (Q ()) db) : Ends (recover p f) Q E db := by
  intro n
  have hp := h n
  simp only [Wp, recover] at hp ⊢
  rcases hpn : p ⟨db, n⟩ with ⟨_ | a, s⟩
  · rw [hpn] at hp
    exact hp
  · rw [hpn] at hp
    exact hp s.statements

theorem ends_ite {c : Prop} [Decidable c] {q : Scan α} (hp : c → Ends p Q E db)
    (hq : ¬ c → Ends q Q E db) : Ends (if c then p else q) Q E db := by
  by_cases h : c
  · rw [if_pos h]
    exact hp h
  · rw [if_neg h]
    exact hq h

theorem Ends.and (h : Ends p Q E db) (h' : Ends p Q' E' db) :
    Ends p (fun a db' => Q a db' ∧ Q' a db') (fun db' => E db' ∧ E' db') db := by
  intro n
  have hn := h n
  have hn' := h' n
  rw [Wp] at hn hn' ⊢
  rcases hp : p ⟨db, n⟩ with ⟨_ | a, s⟩ <;> rw [hp] at hn hn' <;> exact ⟨hn, hn'⟩

theorem ends_true : Ends p (fun _ _ => True) (fun _ => True) db := by
  intro n
  rw [Wp]
  rcases p ⟨db, n⟩ with ⟨_ | a, s⟩ <;> trivial

end rules

/-! ### The writes of a visit -/

def Tmdb.series (tmdb : Tmdb) (title : String) : Option ℤ :=
  (tmdb.matchShow title).map TmdbMatch.tmdbId

/-- **A title that is matched belongs to the show of its series**, any other to the show with its
key. -/
def Names (U : Unicode) (series : String → Option ℤ) (title : String) (s : Show) : Prop :=
  match series title with
  | some tmdbId => s.tmdbId = some tmdbId
  | none => s.normTitle = normalizeShowName U title

def MediaDb.HasFile (db : MediaDb) (id : ℕ) (path : Path) : Prop :=
  ∃ f, (id, f) ∈ db.files ∧ f.path = path

/-- A film is gone from where its row has it. -/
def ScanEnv.gone (env : ScanEnv) (db : MediaDb) (m : Movie) : Bool :=
  match (db.files.get? m.fileId).map MediaFile.path with
  | some path => !env.seemsThere path
  | none => true

def MediaDb.NoMovie (db : MediaDb) (t : Option TmdbMatch) : Prop :=
  ∀ x, t = some x → ∀ y ∈ db.movies, y.2.tmdbId ≠ some x.tmdbId

def MediaDb.NoShow (db : MediaDb) (t : Option TmdbMatch) : Prop :=
  ∀ x, t = some x → ∀ y ∈ db.shows, y.2.tmdbId ≠ some x.tmdbId

def DiskFile.row (file : DiskFile) (height : Option ℤ) : MediaFile :=
  ⟨file.path, file.sizeBytes, file.mtime, height⟩

def Movie.merge (t : Option TmdbMatch) (fileId : ℕ) (m : Movie) : Movie :=
  { m with
    tmdbId := (t.map TmdbMatch.tmdbId).or m.tmdbId
    contentRating := (t.bind TmdbMatch.contentRating).or m.contentRating
    fileId := fileId }

def Show.merge (t : TmdbMatch) (s : Show) : Show :=
  { s with
    tmdbId := some t.tmdbId
    contentRating := t.contentRating.or s.contentRating }

def Episode.merge (t : Option TmdbEpisode) (fileId : ℕ) (e : Episode) : Episode :=
  { e with
    fileId := fileId
    title := (t.bind TmdbEpisode.title).or e.title
    airDate := (t.bind TmdbEpisode.airDate).or e.airDate }

/-- **The writes of a visit**, where `N` is what is known of the show that an episode is written
to. -/
inductive Change (env : ScanEnv) (w : WalkedFile) (N : String → Show → Prop) :
    MediaDb → MediaDb → Prop
  /-- The file is probed. -/
  | file {db : MediaDb} {height : Option ℤ} (hprobe : w.file.probe = some height) :
    Change env w N db { db with
      files := db.files.upsert (fun f => f.path = w.file.path) (fun _ => w.file.row height)
        (w.file.row height) }
  /-- A film that has the match, or the file while no film has the match. -/
  | movie {db : MediaDb} {title : String} {year : Option ℕ} {id fileId : ℕ} {m : Movie}
    {t : Option TmdbMatch} (hparsed : w.parsed env = .movie title year)
    (ht : t = (env.tmdb.matchMovie title year).found?)
    (hfile : db.HasFile fileId w.file.path) (hm : (id, m) ∈ db.movies)
    (hid : (∃ x, t = some x ∧ m.tmdbId = some x.tmdbId) ∨ (m.fileId = fileId ∧ db.NoMovie t)) :
    Change env w N db { db with
      movies := db.movies.updateRow id fun m' =>
        m'.merge t (if env.gone db m then fileId else m'.fileId) }
  | newMovie {db : MediaDb} {title : String} {year : Option ℕ} {fileId : ℕ}
    {t : Option TmdbMatch} (hparsed : w.parsed env = .movie title year)
    (ht : t = (env.tmdb.matchMovie title year).found?)
    (hfile : db.HasFile fileId w.file.path)
    (hnone : db.NoMovie t) (hnone' : ∀ y ∈ db.movies, y.2.fileId ≠ fileId) :
    Change env w N db { db with
      movies := db.movies.insert ⟨t.map TmdbMatch.tmdbId, t.bind TmdbMatch.contentRating, fileId,
        {}, {}⟩ }
  /-- A rating, or a miss. -/
  | movieNote {db : MediaDb} {p : ℕ × Movie → Bool} {f : Movie → Movie}
    (hf : ∀ m, (f m).tmdbId = m.tmdbId ∧ (f m).fileId = m.fileId) :
    Change env w N db { db with movies := db.movies.update p f }
  /-- A show that has the match, or the key while it has no match and no show has this one. -/
  | show' {db : MediaDb} {title : String} {season episode id : ℕ} {s : Show} {t : TmdbMatch}
    (hparsed : w.parsed env = .episode title season episode)
    (ht : env.tmdb.matchShow title = some t) (hs : (id, s) ∈ db.shows)
    (hid : s.tmdbId = some t.tmdbId ∨ (s.tmdbId = none ∧
      s.normTitle = normalizeShowName env.unicode title ∧ db.NoShow (some t))) :
    Change env w N db { db with shows := db.shows.updateRow id (Show.merge t) }
  | newShow {db : MediaDb} {title key : String} {season episode : ℕ} {t : Option TmdbMatch}
    (hparsed : w.parsed env = .episode title season episode)
    (ht : env.tmdb.matchShow title = t)
    (hkey : key = normalizeShowName env.unicode title ∨
      ∃ x, t = some x ∧ key = ownKey (normalizeShowName env.unicode title) x.tmdbId)
    (hnone : ∀ y ∈ db.shows, y.2.normTitle ≠ key) (hnone' : db.NoShow t) :
    Change env w N db { db with
      shows := db.shows.insert ⟨t.map TmdbMatch.tmdbId, key, t.bind TmdbMatch.contentRating⟩ }
  /-- An episode, which keeps its file or gets this one if that is higher. -/
  | episode {db : MediaDb} {title : String} {season episode id fileId : ℕ} {e : Episode}
    {t : Option TmdbEpisode} (hparsed : w.parsed env = .episode title season episode)
    (he : (id, e) ∈ db.episodes) (hseason : e.season = season) (hepisode : e.episode = episode)
    (hfile : fileId = e.fileId ∨ (db.HasFile fileId w.file.path ∧
      (∃ s, (e.showId, s) ∈ db.shows ∧ N title s) ∧
      ((db.files.get? e.fileId).bind MediaFile.videoHeight).getD 0 <
        ((db.files.get? fileId).bind MediaFile.videoHeight).getD 0)) :
    Change env w N db { db with episodes := db.episodes.updateRow id (Episode.merge t fileId) }
  | newEpisode {db : MediaDb} {title : String} {season episode showId fileId : ℕ} {s : Show}
    {t : Option TmdbEpisode} (hparsed : w.parsed env = .episode title season episode)
    (hs : (showId, s) ∈ db.shows) (hN : N title s) (hfile : db.HasFile fileId w.file.path)
    (hnone : db.episodeRow showId season episode = none) :
    Change env w N db { db with
      episodes := db.episodes.insert ⟨showId, season, episode, t.bind TmdbEpisode.title,
        t.bind TmdbEpisode.airDate, fileId, {}⟩ }
  /-- A miss. -/
  | episodeNote {db : MediaDb} {p : ℕ × Episode → Bool} {f : Episode → Episode}
    (hf : ∀ e, (f e).showId = e.showId ∧ (f e).season = e.season ∧ (f e).episode = e.episode ∧
      (f e).fileId = e.fileId) :
    Change env w N db { db with episodes := db.episodes.update p f }
  | probed {db : MediaDb} :
    Change env w N db { db with probeFailures := db.probeFailures.erase w.file.path }
  | probeFailed {db : MediaDb} {failures : Table Path ProbeFailure}
    (hprobe : w.file.probe = none) : Change env w N db { db with probeFailures := failures }

/-! ### Rows of files -/

section files

variable {env : ScanEnv} {w : WalkedFile} {db db' : MediaDb} {id : ℕ} {path : Path}

theorem MediaDb.HasFile.upsert (h : db.HasFile id path) (v : MediaFile) :
    MediaDb.HasFile { db with files := db.files.upsert (fun f => f.path = v.path) (fun _ => v) v }
      id path := by
  obtain ⟨f, hf, hpath⟩ := h
  show ∃ f', (id, f') ∈ db.files.upsert _ _ v ∧ f'.path = path
  rw [AutoTable.upsert]
  rcases hfind : db.files.find? fun f => f.path = v.path with _ | ⟨i, g⟩
  · rw [hfind]
    exact ⟨f, AutoTable.mem_insert.mpr (.inl hf), hpath⟩
  · rw [hfind]
    obtain ⟨hg, hgpath⟩ := AutoTable.find?_eq_some hfind
    by_cases hi : id = i
    · subst hi
      obtain rfl := AutoTable.eq_of_mem hf hg
      exact ⟨v, AutoTable.mem_updateRow_self hf, (of_decide_eq_true hgpath).symm.trans hpath⟩
    · exact ⟨f, AutoTable.mem_updateRow_of_ne hf hi, hpath⟩

/-- **No write of a visit takes the row of a file away.** -/
theorem Change.hasFile {N : String → Show → Prop} (h : Change env w N db db')
    (hfile : db.HasFile id path) : db'.HasFile id path := by
  cases h
  case file height _ => exact hfile.upsert (w.file.row height)
  all_goals exact hfile

end files

/-! ### The parts of a visit -/

section visits

variable {env : ScanEnv} {w : WalkedFile} {N : String → Show → Prop} {db₀ db : MediaDb}
  {path : Path} {title key : String} {year : Option ℕ} {season episode showId fileId : ℕ}

/-- **The tables that a visit may have come to.** -/
abbrev Changes (env : ScanEnv) (w : WalkedFile) (N : String → Show → Prop) :
    MediaDb → MediaDb → Prop := ReflTransGen (Change env w N)

/-- **`upsert_media_file`** -/
theorem ends_upsertMediaFile {file : DiskFile} {height : Option ℤ} (hfile : w.file = file)
    (hprobe : file.probe = some height) (h : Changes env w N db₀ db) :
    Ends (upsertMediaFile env file height)
      (fun id db' => Changes env w N db₀ db' ∧ db'.HasFile id file.path) (Changes env w N db₀)
      db := by
  subst hfile
  refine ends_bind (ends_execute (fun db' hdb' => ?_) fun _ => h)
  obtain rfl := Option.some.inj hdb'
  have h' := h.tail (.file hprobe)
  refine ends_fetchOne (fun id hid => ⟨h', ?_⟩) fun _ => h'
  obtain ⟨⟨i, f⟩, hfind, rfl⟩ := Option.map_eq_some_iff.mp hid
  obtain ⟨hf, hpath⟩ := AutoTable.find?_eq_some hfind
  exact ⟨f, hf, of_decide_eq_true hpath⟩

/-- What is found for a match and a file: the film of the match, or else of the file. -/
def MediaDb.MovieFound (db : MediaDb) (t : Option TmdbMatch) (fileId : ℕ) : Option ℕ → Prop
  | some id => ∃ m, (id, m) ∈ db.movies ∧
      ((∃ x, t = some x ∧ m.tmdbId = some x.tmdbId) ∨ (m.fileId = fileId ∧ db.NoMovie t))
  | none => db.NoMovie t ∧ ∀ y ∈ db.movies, y.2.fileId ≠ fileId

theorem ends_existingMovie {t : Option TmdbMatch} {E : MediaDb → Prop} (hE : env.Faulty → E db) :
    Ends (existingMovie env fileId t) (fun found db' => db' = db ∧ db.MovieFound t fileId found)
      E db := by
  have hofFile (hnone : db.NoMovie t) :
      Ends (select env fun db => (db.movies.find? fun m => m.fileId = fileId).map Prod.fst)
        (fun found db' => db' = db ∧ db.MovieFound t fileId found) E db := by
    refine ends_select ⟨rfl, ?_⟩ hE
    rcases hfind : db.movies.find? fun m => m.fileId = fileId with _ | ⟨id, m⟩
    · rw [hfind]
      exact ⟨hnone, fun y hy => of_decide_eq_false (AutoTable.find?_eq_none.mp hfind y hy)⟩
    · rw [hfind]
      obtain ⟨hm, hof⟩ := AutoTable.find?_eq_some hfind
      exact ⟨m, hm, .inr ⟨of_decide_eq_true hof, hnone⟩⟩
  rcases t with _ | t
  · exact hofFile (by rintro x ⟨⟩)
  · refine ends_bind (ends_select ?_ hE)
    rcases hfind : db.movies.find? fun m => m.tmdbId = some t.tmdbId with _ | ⟨id, m⟩
    · rw [hfind]
      refine hofFile ?_
      rintro x hx y hy
      obtain rfl := Option.some.inj hx
      exact of_decide_eq_false (AutoTable.find?_eq_none.mp hfind y hy)
    · rw [hfind]
      obtain ⟨hm, hof⟩ := AutoTable.find?_eq_some hfind
      exact ends_pure ⟨rfl, m, hm, .inl ⟨t, rfl, of_decide_eq_true hof⟩⟩

/-- **`upsert_movie`** -/
theorem ends_upsertMovie {t : Option TmdbMatch} (hparsed : w.parsed env = .movie title year)
    (ht : t = (env.tmdb.matchMovie title year).found?) (hfile : db.HasFile fileId w.file.path)
    (h : Changes env w N db₀ db) :
    Ends (upsertMovie env fileId t) (fun _ => Changes env w N db₀) (Changes env w N db₀) db := by
  refine ends_bind ((ends_existingMovie fun _ => h).mono ?_ fun _ h => h)
  rintro (_ | id) db' ⟨rfl, hfound⟩
  · refine ends_execute (fun db'' hdb'' => ?_) fun _ => h
    split at hdb''
    · cases hdb''
    · obtain rfl := Option.some.inj hdb''
      exact h.tail (.newMovie hparsed ht hfile hfound.1 hfound.2)
  · obtain ⟨m, hm, hid⟩ := hfound
    refine ends_bind (ends_select ?_ fun _ => h)
    refine ends_execute (fun db'' hdb'' => ?_) fun _ => h
    obtain rfl := Option.some.inj hdb''
    rw [AutoTable.get?_eq_some.mpr hm]
    exact h.tail (.movie hparsed ht hfile hm hid)

/-- What is found for a match and a key: the show of the match, or else the one of the key, unless
that has another match; then a new one gets a key of its own. -/
def MediaDb.ShowFound (db : MediaDb) (key : String) (t : Option TmdbMatch) :
    Option ℕ × String → Prop
  | (some id, _) => ∃ s, (id, s) ∈ db.shows ∧
      match t with
      | some x => s.tmdbId = some x.tmdbId ∨
          (s.tmdbId = none ∧ s.normTitle = key ∧ db.NoShow (some x))
      | none => s.normTitle = key
  | (none, key') => db.NoShow t ∧ (key' = key ∨ ∃ x, t = some x ∧ key' = ownKey key x.tmdbId)

theorem ends_existingShow {t : Option TmdbMatch} {E : MediaDb → Prop} (hE : env.Faulty → E db) :
    Ends (existingShow env key t) (fun found db' => db' = db ∧ db.ShowFound key t found) E db := by
  rcases t with _ | t
  · refine ends_bind (ends_select ?_ hE)
    rcases hfind : db.shows.find? fun s => s.normTitle = key with _ | ⟨id, s⟩
    · rw [hfind]
      exact ends_pure ⟨rfl, by rintro x ⟨⟩, .inl rfl⟩
    · rw [hfind]
      obtain ⟨hs, hkey⟩ := AutoTable.find?_eq_some hfind
      exact ends_pure ⟨rfl, s, hs, of_decide_eq_true hkey⟩
  · refine ends_bind (ends_select ?_ hE)
    rcases hfind : db.shows.find? fun s => s.tmdbId = some t.tmdbId with _ | ⟨id, s⟩
    · rw [hfind]
      have hnone : db.NoShow (some t) := by
        rintro x hx y hy
        obtain rfl := Option.some.inj hx
        exact of_decide_eq_false (AutoTable.find?_eq_none.mp hfind y hy)
      refine ends_bind (ends_select ?_ hE)
      rcases hfind' : db.shows.find? fun s => s.normTitle = key with _ | ⟨id, s⟩
      · rw [hfind']
        exact ends_pure ⟨rfl, hnone, .inl rfl⟩
      · rw [hfind']
        obtain ⟨hs, hkey⟩ := AutoTable.find?_eq_some hfind'
        refine ends_ite (fun hmatch => ends_pure ⟨rfl, s, hs, .inr ⟨?_, ?_, hnone⟩⟩)
          fun _ => ends_pure ⟨rfl, hnone, .inr ⟨t, rfl, rfl⟩⟩
        · exact Option.isNone_iff_eq_none.mp hmatch
        · exact of_decide_eq_true hkey
    · rw [hfind]
      obtain ⟨hs, hmatch⟩ := AutoTable.find?_eq_some hfind
      exact ends_pure ⟨rfl, s, hs, .inl (of_decide_eq_true hmatch)⟩

/-- **`upsert_show`**: the show that is found or made is the one of the title. -/
theorem ends_upsertShow {t : Option TmdbMatch}
    (hparsed : w.parsed env = .episode title season episode) (ht : env.tmdb.matchShow title = t)
    (h : Changes env w N db₀ db) :
    Ends (upsertShow env title t)
      (fun id db' => Changes env w N db₀ db' ∧ db'.files = db.files ∧
        ∃ s, (id, s) ∈ db'.shows ∧ Names env.unicode env.tmdb.series title s)
      (Changes env w N db₀) db := by
  refine ends_bind ((ends_existingShow fun _ => h).mono ?_ fun _ h => h)
  rintro ⟨_ | id, key⟩ db' ⟨rfl, hfound⟩
  · obtain ⟨hnone, hkey⟩ := hfound
    refine ends_bind (ends_execute (fun db'' hdb'' => ?_) fun _ => h)
    split at hdb''
    · cases hdb''
    · next hfree =>
      obtain rfl := Option.some.inj hdb''
      have hfind : db'.shows.find? (fun s => s.normTitle = key) = none := by
        rcases hrow : db'.shows.find? fun s => s.normTitle = key with _ | x
        · exact hrow
        · exact absurd (.inr (by rw [hrow]; rfl)) hfree
      have h' := h.tail (.newShow hparsed ht hkey
        (fun y hy => of_decide_eq_false (AutoTable.find?_eq_none.mp hfind y hy)) hnone)
      refine ends_fetchOne (fun id hid => ⟨h', rfl, ?_⟩) fun _ => h'
      rw [AutoTable.find?_insert hfind (decide_eq_true rfl)] at hid
      obtain rfl := Option.some.inj hid
      refine ⟨_, AutoTable.mem_insert.mpr (.inr rfl), ?_⟩
      rw [Names, Tmdb.series, ht]
      rcases t with _ | t
      · exact hkey.resolve_right (by rintro ⟨x, ⟨⟩, -⟩)
      · rfl
  · obtain ⟨s, hs, hmatch⟩ := hfound
    rcases t with _ | t
    · refine ends_pure ⟨h, rfl, s, hs, ?_⟩
      rw [Names, Tmdb.series, ht]
      exact hmatch
    · refine ends_bind (ends_execute (fun db'' hdb'' => ?_) fun _ => h)
      obtain rfl := Option.some.inj hdb''
      refine ends_pure ⟨h.tail (.show' hparsed ht hs hmatch), rfl, _,
        AutoTable.mem_updateRow_self hs, ?_⟩
      rw [Names, Tmdb.series, ht]
      rfl

theorem of_episodeRow {x : ℕ × Episode} (h : db.episodeRow showId season episode = some x) :
    x ∈ db.episodes ∧ x.2.showId = showId ∧ x.2.season = season ∧ x.2.episode = episode := by
  obtain ⟨hx, hkey⟩ := AutoTable.find?_eq_some h
  exact ⟨hx, of_decide_eq_true hkey⟩

/-- **`upsert_episode`**, with the file that backs the episode already or with this one. -/
theorem ends_upsertEpisode {t : Option TmdbEpisode}
    (hparsed : w.parsed env = .episode title season episode)
    (hfile : (∃ x, db.episodeRow showId season episode = some x ∧ x.2.fileId = fileId) ∨
      (db.HasFile fileId w.file.path ∧ ∃ s, (showId, s) ∈ db.shows ∧ N title s))
    (h : Changes env w N db₀ db) :
    Ends (upsertEpisode env showId season episode fileId t) (fun _ => Changes env w N db₀)
      (Changes env w N db₀) db := by
  refine ends_bind (ends_select ?_ fun _ => h)
  rcases hrow : db.episodeRow showId season episode with _ | ⟨id, e⟩
  · obtain ⟨hfile, s, hs, hN⟩ := hfile.resolve_left (by
      rintro ⟨x, hx, -⟩
      rw [hrow] at hx
      cases hx)
    refine ends_execute (fun db' hdb' => ?_) fun _ => h
    rw [hrow] at hdb'
    obtain rfl := Option.some.inj hdb'
    exact h.tail (.newEpisode hparsed hs hN hfile hrow)
  · obtain ⟨he, rfl, hseason, hepisode⟩ := of_episodeRow hrow
    -- whichever file is kept, it is one that the episode may have
    have hwrite (keep : Bool) (hkeep : keep = true → fileId ≠ e.fileId →
        ((db.files.get? e.fileId).bind MediaFile.videoHeight).getD 0 <
          ((db.files.get? fileId).bind MediaFile.videoHeight).getD 0) :
        Ends (execute env fun db => some { db with
          episodes := db.episodes.updateRow id
            (Episode.merge t (if keep then fileId else e.fileId)) })
          (fun _ => Changes env w N db₀) (Changes env w N db₀) db := by
      refine ends_execute (fun db' hdb' => ?_) fun _ => h
      obtain rfl := Option.some.inj hdb'
      refine h.tail (.episode hparsed he hseason hepisode ?_)
      rcases hfile with ⟨x, hx, rfl⟩ | ⟨hfile, hshow⟩
      · obtain rfl := Option.some.inj (hrow.symm.trans hx)
        exact .inl (ite_self _)
      · by_cases hk : keep = true
        · rw [if_pos hk]
          exact (eq_or_ne fileId e.fileId).imp_right fun hne => ⟨hfile, hshow, hkeep hk hne⟩
        · exact .inl (if_neg hk)
    refine ends_ite (fun heq => ?_) fun hne => ?_
    · exact ends_bind (ends_pure (hwrite true fun _ hne => absurd heq hne))
    · refine ends_bind (ends_select (ends_bind (ends_select ?_ fun _ => h)) fun _ => h)
      exact ends_bind (ends_pure (hwrite _ fun hk _ => of_decide_eq_true hk))

theorem ends_recordEpisodeLookupFailure (h : Changes env w N db₀ db) :
    Ends (recordEpisodeLookupFailure env showId season episode) (fun _ => Changes env w N db₀)
      (Changes env w N db₀) db := by
  refine ends_execute (fun db' hdb' => ?_) fun _ => h
  obtain rfl := Option.some.inj hdb'
  exact h.tail (.episodeNote fun _ => ⟨rfl, rfl, rfl, rfl⟩)

theorem ends_episodeLookupDue {Q : Bool → MediaDb → Prop} {E : MediaDb → Prop}
    (hQ : ∀ due, Q due db) (hE : env.Faulty → E db) :
    Ends (episodeLookupDue env showId season episode) Q E db := by
  refine ends_bind (ends_select ?_ hE)
  rcases db.episodeRow showId season episode with _ | ⟨id, e⟩
  · exact ends_pure (hQ _)
  · exact ends_pure (hQ _)

/-- **`index_file`** -/
theorem ends_indexFile {height : Option ℤ}
    (hN : ∀ d season episode, w.parsed env = .episode d season episode →
      ∀ s, Names env.unicode env.tmdb.series d s → N d s)
    (hprobe : w.file.probe = some height) (h : Changes env w N db₀ db) :
    Ends (indexFile env w.file height (w.parsed env)) (fun _ => Changes env w N db₀)
      (Changes env w N db₀) db := by
  refine ends_bind ((ends_upsertMediaFile rfl hprobe h).mono ?_ fun _ h => h)
  rintro fileId db₁ ⟨h₁, hfile⟩
  rcases hparsed : w.parsed env with ⟨title, year⟩ | ⟨title, season, episode⟩ | _
  · exact ends_upsertMovie hparsed rfl hfile h₁
  · refine ends_bind ((ends_upsertShow hparsed rfl h₁).mono ?_ fun _ h => h)
    rintro showId db₂ ⟨h₂, hfiles, s, hs, hnames⟩
    refine ends_bind (ends_episodeLookupDue (fun due => ?_) fun _ => h₂)
    have hshow : ∃ s, (showId, s) ∈ db₂.shows ∧ N title s :=
      ⟨s, hs, hN _ _ _ hparsed s hnames⟩
    have hfile' : db₂.HasFile fileId w.file.path := by
      rw [MediaDb.HasFile, hfiles]
      exact hfile
    refine ends_bind ((ends_upsertEpisode hparsed (.inr ⟨hfile', hshow⟩) h₂).mono ?_
      fun _ h => h)
    rintro - db₃ h₃
    split
    · exact ends_recordEpisodeLookupFailure h₃
    · exact ends_pure h₃
  · exact ends_pure h₁

/-- **`apply_episode_backfill`**: an episode that is new gets the file. -/
theorem ends_applyEpisodeBackfill {ep : TmdbFetch TmdbEpisode}
    (hparsed : w.parsed env = .episode title season episode)
    (hfile : db.HasFile fileId w.file.path)
    (hshow : db.episodeRow showId season episode = none → ∀ e, ep = .found e →
      ∃ s, (showId, s) ∈ db.shows ∧ N title s)
    (h : Changes env w N db₀ db) :
    Ends (applyEpisodeBackfill env showId season episode fileId ep)
      (fun _ => Changes env w N db₀) (Changes env w N db₀) db := by
  rcases ep with e | _ | _
  · refine ends_bind (ends_select ?_ fun _ => h)
    refine ends_upsertEpisode hparsed ?_ h
    rcases hrow : db.episodeRow showId season episode with _ | x
    · exact .inr ⟨hfile, hshow hrow e rfl⟩
    · exact .inl ⟨x, rfl, rfl⟩
  · exact ends_recordEpisodeLookupFailure h
  · exact ends_pure h

theorem ends_backfillMovie (hparsed : w.parsed env = .movie title year)
    (hfile : db.HasFile fileId w.file.path) (h : Changes env w N db₀ db) :
    Ends (backfillMovie env fileId title year) (fun _ => Changes env w N db₀)
      (Changes env w N db₀) db := by
  have hnote {p : ℕ × Movie → Bool} {f : Movie → Movie}
      (hf : ∀ m, (f m).tmdbId = m.tmdbId ∧ (f m).fileId = m.fileId) :
      Ends (execute env fun db => some { db with movies := db.movies.update p f })
        (fun _ => Changes env w N db₀) (Changes env w N db₀) db := by
    refine ends_execute (fun db' hdb' => ?_) fun _ => h
    obtain rfl := Option.some.inj hdb'
    exact h.tail (.movieNote hf)
  refine ends_bind (ends_select ?_ fun _ => h)
  split
  · refine ends_ite (fun _ => ends_pure h) fun _ => ?_
    split
    · exact hnote fun _ => ⟨rfl, rfl⟩
    · exact hnote fun _ => ⟨rfl, rfl⟩
    · exact ends_pure h
  · refine ends_ite (fun _ => ends_pure h) fun _ => ?_
    rcases hmatch : env.tmdb.matchMovie title year with m | _ | _
    · exact ends_upsertMovie hparsed (by rw [hmatch]; rfl) hfile h
    · exact hnote fun _ => ⟨rfl, rfl⟩
    · exact ends_pure h

/-- **The backfill of an episode.** A show that is found by its key is known to have it, is matched
and rated; whether it is the show of the title is asked of the caller, and only where an episode
would be new. -/
theorem ends_backfillEpisode
    (hN : ∀ s, Names env.unicode env.tmdb.series title s → N title s)
    (hparsed : w.parsed env = .episode title season episode)
    (hfile : db.HasFile fileId w.file.path)
    (hstored : ∀ id tmdbId, storedShowMatch env title db = some (id, tmdbId) →
      db.episodeRow id season episode = none →
        ∀ e, env.tmdb.episode tmdbId season episode = .found e →
          ∃ s, (id, s) ∈ db.shows ∧ N title s)
    (h : Changes env w N db₀ db) :
    Ends (backfillEpisode env fileId title season episode) (fun _ => Changes env w N db₀)
      (Changes env w N db₀) db := by
  refine ends_bind (ends_select ?_ fun _ => h)
  rcases hshow : storedShowMatch env title db with _ | ⟨showId, tmdbId⟩
  · refine ends_bind ((ends_upsertShow hparsed rfl h).mono ?_ fun _ h => h)
    rintro showId db₁ ⟨h₁, hfiles, s, hs, hnames⟩
    refine ends_bind (ends_episodeLookupDue (fun due => ?_) fun _ => h₁)
    refine ends_ite (fun _ => ?_) fun _ => ends_pure h₁
    have hfile' : db₁.HasFile fileId w.file.path := by
      rw [MediaDb.HasFile, hfiles]
      exact hfile
    exact ends_applyEpisodeBackfill hparsed hfile' (fun _ _ _ => ⟨s, hs, hN s hnames⟩) h₁
  · refine ends_bind (ends_episodeLookupDue (fun due => ?_) fun _ => h)
    refine ends_ite (fun _ => ?_) fun _ => ends_pure h
    exact ends_applyEpisodeBackfill hparsed hfile (hstored showId tmdbId hshow) h

/-- **An unchanged file whose title has a matched and rated show of some name**: if TMDB has the
episode and the show does not, `N` is known of the show. -/
def Owned (env : ScanEnv) (w : WalkedFile) (N : String → Show → Prop) (db : MediaDb) : Prop :=
  ∀ x, db.fileRow w.file.path = some x → w.file.unchanged x.2 = true →
    ∀ title season episode, w.parsed env = .episode title season episode →
      ∀ id tmdbId, storedShowMatch env title db = some (id, tmdbId) →
        db.episodeRow id season episode = none →
          ∀ e, env.tmdb.episode tmdbId season episode = .found e →
            ∃ s, (id, s) ∈ db.shows ∧ N title s

theorem ends_probeLookupDue {sizeBytes : ℕ} {mtime : String} {Q : Bool → MediaDb → Prop}
    {E : MediaDb → Prop} (hQ : ∀ due, Q due db) (hE : env.Faulty → E db) :
    Ends (probeLookupDue env path sizeBytes mtime) Q E db := by
  refine ends_bind (ends_select ?_ hE)
  split
  · exact ends_pure (hQ _)
  · refine ends_ite (fun _ => ends_pure (hQ _)) fun _ => ?_
    refine ends_ite (fun _ => ends_pure (hQ _)) fun _ => ?_
    split
    · exact ends_pure (hQ _)
    · exact ends_pure (hQ _)

theorem ends_scanChanged
    (hN : ∀ d season episode, w.parsed env = .episode d season episode →
      ∀ s, Names env.unicode env.tmdb.series d s → N d s) :
    Ends (scanChanged env w) (fun _ => Changes env w N db) (Changes env w N db) db := by
  refine ends_bind (ends_probeLookupDue (fun due => ?_) fun _ => .refl)
  refine ends_ite (fun _ => ?_) fun _ => ends_pure .refl
  rcases hprobe : w.file.probe with _ | height
  · refine ends_execute (fun db' hdb' => ?_) fun _ => .refl
    obtain rfl := Option.some.inj hdb'
    exact .single (.probeFailed hprobe)
  · refine ends_bind (ends_execute (fun db' hdb' => ?_) fun _ => .refl)
    obtain rfl := Option.some.inj hdb'
    exact ends_logged (ends_indexFile hN hprobe (.single .probed))

/-- **`backfill_metadata`** of a file that has a row. -/
theorem ends_backfillMetadata {x : ℕ × MediaFile}
    (hN : ∀ d season episode, w.parsed env = .episode d season episode →
      ∀ s, Names env.unicode env.tmdb.series d s → N d s)
    (hrow : db.fileRow w.file.path = some x)
    (hstored : ∀ title season episode, w.parsed env = .episode title season episode →
      ∀ id tmdbId, storedShowMatch env title db = some (id, tmdbId) →
        db.episodeRow id season episode = none →
          ∀ e, env.tmdb.episode tmdbId season episode = .found e →
            ∃ s, (id, s) ∈ db.shows ∧ N title s) :
    Ends (backfillMetadata env w.file.path (w.parsed env)) (fun _ => Changes env w N db)
      (Changes env w N db) db := by
  obtain ⟨fileId, f⟩ := x
  obtain ⟨hf, hpath⟩ := AutoTable.find?_eq_some hrow
  have hfile : db.HasFile fileId w.file.path := ⟨f, hf, of_decide_eq_true hpath⟩
  refine ends_bind (ends_select ?_ fun _ => .refl)
  rw [hrow]
  rcases hparsed : w.parsed env with ⟨title, year⟩ | ⟨title, season, episode⟩ | _
  · exact ends_backfillMovie hparsed hfile .refl
  · exact ends_backfillEpisode (hN _ _ _ hparsed) hparsed hfile (hstored _ _ _ hparsed) .refl
  · exact ends_pure .refl

/-- **What a visit may write.** -/
theorem changes_of_scanFile
    (hN : ∀ d season episode, w.parsed env = .episode d season episode →
      ∀ s, Names env.unicode env.tmdb.series d s → N d s)
    (howned : Owned env w N db) :
    Ends (scanFile env w) (fun _ => Changes env w N db) (Changes env w N db) db := by
  refine ends_recover (ends_select ?_ fun _ => .refl)
  refine ends_ite (fun hunchanged => ends_logged ?_) fun _ => ends_scanChanged hN
  rcases hrow : db.fileRow w.file.path with _ | x
  · rw [hrow] at hunchanged
    cases hunchanged
  · rw [hrow, Option.any_some] at hunchanged
    exact ends_backfillMetadata hN hrow (howned _ hrow hunchanged)

theorem owned_true : Owned env w (fun _ _ => True) db := by
  rintro x _ _ title season episode _ showId tmdbId hstored _ _ _
  obtain ⟨⟨i, s⟩, hfind, hmatch⟩ := Option.bind_eq_some_iff.mp hstored
  obtain ⟨_, hmatch⟩ := Option.ite_none_right_eq_some.mp hmatch
  obtain ⟨_, _, heq⟩ := Option.map_eq_some_iff.mp hmatch
  obtain ⟨rfl, _⟩ := Prod.mk.inj heq
  exact ⟨s, (AutoTable.find?_eq_some hfind).1, trivial⟩

/-- **What each write of a visit keeps is kept by the visit**, in every run. -/
theorem ends_scanFile {P : MediaDb → Prop}
    (hchange : ∀ {db db' : MediaDb}, P db → Change env w (fun _ _ => True) db db' → P db')
    (h : P db) : Ends (scanFile env w) (fun _ => P) P db := by
  have hkeep {db' : MediaDb} (hchanges : Changes env w (fun _ _ => True) db db') : P db' := by
    induction hchanges with
    | refl => exact h
    | tail _ hlast ih => exact hchange ih hlast
  exact (changes_of_scanFile (fun _ _ _ _ _ _ => trivial) owned_true).mono
    (fun _ _ => hkeep) fun _ => hkeep

/-- A visit of `scan_once` breaks off only where a statement fails. -/
theorem ends_scanFile_faulty :
    Ends (scanFile env w) (fun _ _ => True) (fun _ => env.Faulty) db := by
  refine ends_recover (ends_select ?_ fun _ => trivial)
  refine ends_ite (fun _ => ends_logged ends_true) fun _ => ?_
  refine ends_bind (ends_probeLookupDue (fun due => ?_) id)
  refine ends_ite (fun _ => ?_) fun _ => ends_pure trivial
  rcases w.file.probe with _ | height
  · exact ends_execute (fun _ _ => trivial) fun h => h.resolve_right (by rintro ⟨⟩)
  · refine ends_bind (ends_execute (fun _ _ => ?_) fun h => h.resolve_right (by rintro ⟨⟩))
    exact ends_logged ends_true

theorem ends_scanFiles_faulty : ∀ (walk : List WalkedFile) {db : MediaDb},
    Ends (scanFiles env walk) (fun _ _ => True) (fun _ => env.Faulty) db
  | [], _ => ends_pure trivial
  | _ :: walk, _ => ends_bind (ends_scanFile_faulty.mono (fun _ _ _ => ends_scanFiles_faulty walk)
      fun _ h => h)

end visits

end EmeraldExchange.MediaCore
