import EmeraldExchange.MediaCore.BestRip
import EmeraldExchange.MediaCore.Requests

/-!
# A scan in which nothing is new

Once every title of the catalog is matched, rated and named, a scan of files that are as they were
is to send no request and to leave the titles alone. Whether there is something to fetch for a file
is decided from rows that are looked up by way of the file itself: the film that has this very file,
the show whose key is that of the name in the file's name.

But a second file of a film has no row, since a film has one row for all its files; and a show may
have another key than the names of its files make. What has no row is asked for, in every scan
(`not_idle_two_rips`). A scan does nothing exactly if each file finds its
title in this way, and if what the scan deletes at its end backs no title
(`idle_iff`).
-/

namespace EmeraldExchange.MediaCore

open Program Requests

/-! ### What a scan goes by -/

/-- **Every title is matched and rated, or named.** -/
structure MediaDb.Complete (db : MediaDb) : Prop where
  movies : ∀ x ∈ db.movies, x.2.tmdbId.isSome = true ∧ x.2.contentRating.isSome = true
  shows : ∀ x ∈ db.shows, x.2.tmdbId.isSome = true ∧ x.2.contentRating.isSome = true
  episodes : ∀ x ∈ db.episodes, x.2.title.isSome = true

/-- **The title of a file is found by way of the file.** An episode with the number 0 need not be
found: there is no such episode to ask for. -/
def Known (env : ScanEnv) (fileId : ℕ) (db : MediaDb) : ParsedName → Prop
  | .movie _ _ => ∃ x ∈ db.movies, x.2.fileId = fileId
  | .episode title season episode => ∃ id tmdbId, storedShowMatch env title db = some (id, tmdbId) ∧
      (episode = 0 ∨ ∃ x, db.episodeRow id season episode = some x)
  | .unknown => True

/-- **There is nothing to fetch for a file**: its title is found if it is as it was, and it has no
title if it is indexed. -/
structure Quiet (env : ScanEnv) (w : WalkedFile) (db : MediaDb) : Prop where
  known : ∀ x, db.fileRow w.file.path = some x → w.file.unchanged x.2 = true →
    Known env x.1 db (w.parsed env)
  unknown : ∀ height, Indexes env w height db → w.parsed env = .unknown

def Picked (env : ScanEnv) (path : Path) : Prop :=
  ∃ root ∈ prunableRoots env, root.path.isPrefixOf path = true ∧
    (inExtrasDir env path root.path = true ∨ env.onDisk path = false)

/-- **What the prune deletes backs no title**; and it deletes nothing at all, if there is a show
without episodes that it would sweep. -/
structure Unpruned (env : ScanEnv) (db : MediaDb) : Prop where
  movies : ∀ x ∈ db.movies, ∀ path, db.HasFile x.2.fileId path → ¬ Picked env path
  episodes : ∀ x ∈ db.episodes, ∀ path, db.HasFile x.2.fileId path → ¬ Picked env path
  shows : (∀ x ∈ db.shows, ∃ e ∈ db.episodes, e.2.showId = x.1) ∨
    ((∀ y ∈ db.files, ¬ Picked env y.2.path) ∧
      ∀ w ∈ walkRoots env, ∀ height, Indexes env w height db → ¬ Picked env w.file.path)

/-- **There is nothing to do.** -/
structure Steady (env : ScanEnv) (db : MediaDb) : Prop where
  quiet : ∀ w ∈ walkRoots env, Quiet env w db
  unpruned : Unpruned env db

def SameTitles (db db' : MediaDb) : Prop :=
  db'.movies.rows = db.movies.rows ∧ db'.shows.rows = db.shows.rows ∧
    db'.episodes.rows = db.episodes.rows

/-- **A scan does nothing**: it sends no request, and no row of a title is changed. -/
def Idle (env : ScanEnv) (walk : List WalkedFile) (db : MediaDb) : Prop :=
  (Requests.scanOnce env walk).sent ⟨db, 0⟩ = [] ∧
    SameTitles db (MediaCore.scanOnce env walk ⟨db, 0⟩).2.db

/-! ### Titles have files -/

section linked

variable {env : ScanEnv} {w : WalkedFile} {N : String → Show → Prop} {db db' : MediaDb} {id : ℕ}
  {path path' : Path}

/-- **Every film and every episode has the row of a file.** -/
structure Linked (db : MediaDb) : Prop where
  movies : ∀ x ∈ db.movies, ∃ path, db.HasFile x.2.fileId path
  episodes : ∀ x ∈ db.episodes, ∃ path, db.HasFile x.2.fileId path

theorem Linked.mono (h : Linked db)
    (hfiles : ∀ id path, db.HasFile id path → db'.HasFile id path)
    (hmovies : ∀ x ∈ db'.movies, (∃ y ∈ db.movies, y.2.fileId = x.2.fileId) ∨
      ∃ path, db.HasFile x.2.fileId path)
    (hepisodes : ∀ x ∈ db'.episodes, (∃ y ∈ db.episodes, y.2.fileId = x.2.fileId) ∨
      ∃ path, db.HasFile x.2.fileId path) : Linked db' where
  movies x hx := by
    have hlink : ∃ path, db.HasFile x.2.fileId path := by
      rcases hmovies x hx with ⟨y, hy, heq⟩ | hfile
      · exact heq ▸ h.movies y hy
      · exact hfile
    exact hlink.imp fun path => hfiles _ path
  episodes x hx := by
    have hlink : ∃ path, db.HasFile x.2.fileId path := by
      rcases hepisodes x hx with ⟨y, hy, heq⟩ | hfile
      · exact heq ▸ h.episodes y hy
      · exact hfile
    exact hlink.imp fun path => hfiles _ path

/-- **Each write of a visit leaves titles with their files.** -/
theorem Linked.change (h : Linked db) (hchange : Change env w N db db') : Linked db' := by
  refine h.mono (fun _ _ => hchange.hasFile) ?_ ?_
  · cases hchange with
    | @movie _ _ id fileId m t _ _ hfile hm _ =>
      intro x hx
      rcases AutoTable.mem_updateRow hx with ⟨hx, _⟩ | ⟨m', hm', rfl⟩
      · exact .inl ⟨x, hx, rfl⟩
      · by_cases hgone : env.gone db m = true
        · have hid : (m'.merge t (if env.gone db m then fileId else m'.fileId)).fileId = fileId :=
            if_pos hgone
          exact .inr ⟨w.file.path, hid.symm ▸ hfile⟩
        · exact .inl ⟨_, hm', (if_neg hgone).symm⟩
    | @newMovie _ _ fileId t _ _ hfile _ _ =>
      intro x hx
      rcases AutoTable.mem_insert.mp hx with hx | rfl
      · exact .inl ⟨x, hx, rfl⟩
      · exact .inr ⟨_, hfile⟩
    | movieNote hf =>
      intro x hx
      obtain ⟨z, hz, rfl⟩ := AutoTable.mem_update.mp hx
      refine .inl ⟨z, hz, ?_⟩
      rw [AutoTable.updated]
      split
      · exact (hf z.2).2.symm
      · rfl
    | file | show' | newShow | episode | newEpisode | episodeNote | probed | probeFailed =>
      exact fun x hx => .inl ⟨x, hx, rfl⟩
  · cases hchange with
    | episode _ he _ _ hfile =>
      intro x hx
      rcases AutoTable.mem_updateRow hx with ⟨hx, _⟩ | ⟨e', he', rfl⟩
      · exact .inl ⟨x, hx, rfl⟩
      · rcases hfile with rfl | ⟨hfile, _⟩
        · exact .inl ⟨_, he, rfl⟩
        · exact .inr ⟨_, hfile⟩
    | newEpisode _ _ _ hfile _ =>
      intro x hx
      rcases AutoTable.mem_insert.mp hx with hx | rfl
      · exact .inl ⟨x, hx, rfl⟩
      · exact .inr ⟨_, hfile⟩
    | episodeNote hf =>
      intro x hx
      obtain ⟨z, hz, rfl⟩ := AutoTable.mem_update.mp hx
      refine .inl ⟨z, hz, ?_⟩
      rw [AutoTable.updated]
      split
      · exact (hf z.2).2.2.2.symm
      · rfl
    | file | movie | newMovie | movieNote | show' | newShow | probed | probeFailed =>
      exact fun x hx => .inl ⟨x, hx, rfl⟩

theorem Linked.deleteFile (h : Linked db) : Linked (db.deleteFile id) := by
  have hkept {fileId : ℕ} (hne : fileId ≠ id) (hfile : ∃ path, db.HasFile fileId path) :
      ∃ path, (db.deleteFile id).HasFile fileId path := by
    obtain ⟨path, f, hf, hpath⟩ := hfile
    exact ⟨path, f, AutoTable.mem_remove.mpr ⟨hf, decide_eq_false hne⟩, hpath⟩
  refine ⟨fun x hx => ?_, fun x hx => ?_⟩
  · obtain ⟨hx, hne⟩ := AutoTable.mem_remove.mp hx
    exact hkept (of_decide_eq_false hne) (h.movies x hx)
  · obtain ⟨hx, hne⟩ := AutoTable.mem_remove.mp hx
    exact hkept (of_decide_eq_false hne) (h.episodes x hx)

/-- **Titles have files**, in every state of every run. -/
theorem linked_of_runs {lib : Library} {s : Scans} (h : Runs (step lib) anyStep {} s) :
    Linked s.db := by
  have hstart : Linked {} :=
    ⟨fun x hx => absurd hx (AutoTable.not_mem_empty x),
      fun x hx => absurd hx (AutoTable.not_mem_empty x)⟩
  refine Runs.invariant (P := fun s => Linked s.db) h hstart fun s a t hs _ hstep => ?_
  cases a with
  | start m walk =>
    obtain ⟨_, _, rfl⟩ := step_start hstep
    exact hs
  | visit =>
    obtain ⟨m, w, left, n, _, rfl⟩ := step_visit hstep
    have hends : Wp (MediaCore.scanFile ⟨lib, m⟩ w) _ _ _ :=
      MediaCore.ends_scanFile (P := Linked) Linked.change hs n
    rw [Wp] at hends
    rcases hrun : MediaCore.scanFile ⟨lib, m⟩ w ⟨s.db, n⟩ with ⟨_ | ⟨⟩, u⟩
    all_goals
      rw [hrun] at hends
      exact hends
  | reconcile =>
    obtain ⟨m, n, _, rfl⟩ := step_reconcile hstep
    have hends : Wp (reconcile ⟨lib, m⟩) (fun _ s => Linked s.db) (fun s => Linked s.db)
        ⟨s.db, n⟩ :=
      ends_reconcile (fun _ h => h.deleteFile) (fun h => ⟨h.movies, h.episodes⟩)
        (fun h => ⟨h.movies, h.episodes⟩) hs n
    rw [Wp] at hends
    rcases hrun : reconcile ⟨lib, m⟩ ⟨s.db, n⟩ with ⟨_ | ⟨⟩, u⟩
    all_goals
      rw [hrun] at hends
      exact hends

end linked

/-! ### A visit in which there is nothing to fetch -/

section visits

variable {env : ScanEnv} {w v : WalkedFile} {db db' : MediaDb} {path : Path} {title : String}
  {season episode showId fileId : ℕ} {height : Option ℤ}

/-- What `episode_lookup_due` is for: the episode is there and has no title, or it is not there. -/
theorem ends_episodeLookupDue_complete (hcomplete : db.Complete) {Q : Bool → MediaDb → Prop}
    {E : MediaDb → Prop} (hdue : db.episodeRow showId season episode = none → Q true db)
    (hknown : ∀ x, db.episodeRow showId season episode = some x → Q false db) (hE : E db) :
    Ends (episodeLookupDue env showId season episode) Q E db := by
  refine ends_bind (ends_select ?_ fun _ => hE)
  rcases hrow : db.episodeRow showId season episode with _ | ⟨id, e⟩
  · exact ends_pure (hdue hrow)
  · have htitle := hcomplete.episodes (id, e) (of_episodeRow hrow).1
    refine ends_pure ?_
    rw [shouldAttemptEpisodeLookup, if_pos htitle]
    exact hknown (id, e) hrow

theorem silently_backfillMovie (hcomplete : db.Complete)
    (hknown : ∃ x ∈ db.movies, x.2.fileId = fileId) {year : Option ℕ} :
    Silently (Requests.backfillMovie env fileId title year) (fun _ db' => db' = db)
      (fun db' => db' = db) db := by
  obtain ⟨x, hx, hfile⟩ := hknown
  obtain ⟨y, hfind⟩ := AutoTable.isSome_find? (q := fun m => m.fileId = fileId) hx
    (decide_eq_true hfile)
  obtain ⟨hmatched, hrated⟩ := hcomplete.movies y (AutoTable.find?_eq_some hfind).1
  obtain ⟨tmdbId, hmatch⟩ := Option.isSome_iff_exists.mp hmatched
  refine silently_bind (silently_told (ends_select ?_ fun _ => rfl))
  rw [hfind, Option.bind_some, hmatch]
  exact silently_ite (fun _ => silently_pure rfl) fun h => absurd (.inl hrated) h

theorem silently_backfillEpisode (hcomplete : db.Complete)
    (hclient : ∀ tmdbId season, env.tmdb.episode tmdbId season 0 = .definitiveMiss)
    (hknown : Known env fileId db (.episode title season episode)) :
    Silently (Requests.backfillEpisode env fileId title season episode) (fun _ db' => db' = db)
      (fun db' => db' = db) db := by
  obtain ⟨showId, tmdbId, hstored, hepisode⟩ := hknown
  refine silently_bind (silently_told (ends_select ?_ fun _ => rfl))
  rw [hstored]
  refine silently_bind (silently_told (ends_episodeLookupDue_complete hcomplete (fun hnone => ?_)
    (fun x hrow => silently_pure rfl) rfl))
  rcases hepisode with rfl | ⟨x, hrow⟩
  · refine silently_bind (silently_ask rfl (silently_told ?_))
    rw [hclient]
    show Ends (recordEpisodeLookupFailure env showId season 0) _ _ _
    -- the miss is written to no row
    refine ends_execute (fun db' hdb' => ?_) fun _ => rfl
    obtain rfl := Option.some.inj hdb'
    rw [AutoTable.update_eq_self fun x hx => AutoTable.find?_eq_none.mp hnone x hx]
  · rw [hnone] at hrow
    cases hrow

/-- **`backfill_metadata`** of a file that finds its title. -/
theorem silently_backfillMetadata (hcomplete : db.Complete)
    (hclient : ∀ tmdbId season, env.tmdb.episode tmdbId season 0 = .definitiveMiss)
    {parsed : ParsedName} (hknown : ∀ x, db.fileRow path = some x → Known env x.1 db parsed) :
    Silently (Requests.backfillMetadata env path parsed) (fun _ db' => db' = db)
      (fun db' => db' = db) db := by
  refine silently_bind (silently_told (ends_select ?_ fun _ => rfl))
  rcases hrow : db.fileRow path with _ | x
  · exact silently_pure rfl
  · rcases parsed with ⟨title, year⟩ | ⟨title, season, episode⟩ | _
    · exact silently_backfillMovie hcomplete (hknown x hrow)
    · exact silently_backfillEpisode hcomplete hclient (hknown x hrow)
    · exact silently_pure rfl

/-- **The tables after a visit in which there is nothing to fetch.** A file without a title is
stored, and a probe that fails is noted. -/
inductive Visited (env : ScanEnv) (w : WalkedFile) (db : MediaDb) : MediaDb → Prop
  | same : Visited env w db db
  | failed {failures : Table Path ProbeFailure} (hprobe : w.file.probe = none)
    (hothers : ∀ path, path ≠ w.file.path →
      failures.lookup path = db.probeFailures.lookup path) :
    Visited env w db { db with probeFailures := failures }
  | cleared {height : Option ℤ} (hindexes : Indexes env w height db) :
    Visited env w db { db with probeFailures := db.probeFailures.erase w.file.path }
  | stored {height : Option ℤ} (hindexes : Indexes env w height db) :
    Visited env w db
      (w.stored height { db with probeFailures := db.probeFailures.erase w.file.path })

theorem ends_upsertMediaFile_stored :
    Ends (upsertMediaFile env w.file height) (fun _ db' => db' = w.stored height db)
      (fun db' => db' = db ∨ db' = w.stored height db) db := by
  refine ends_bind (ends_execute (fun db' hdb' => ?_) fun _ => .inl rfl)
  obtain rfl := Option.some.inj hdb'
  exact ends_fetchOne (fun _ _ => rfl) fun _ => .inr rfl

/-- **A visit in which there is nothing to fetch sends nothing**, whatever fails. -/
theorem silently_scanFile (hcomplete : db.Complete)
    (hclient : ∀ tmdbId season, env.tmdb.episode tmdbId season 0 = .definitiveMiss)
    (hquiet : Quiet env w db) :
    Silently (Requests.scanFile env w) (fun _ => Visited env w db) (Visited env w db) db := by
  refine silently_recover (ends_select ?_ fun _ => .same)
  refine silently_ite (fun hunchanged => silently_logged ?_) fun hchanged => ?_
  · have hknown : ∀ x, db.fileRow w.file.path = some x → Known env x.1 db (w.parsed env) := by
      intro x hrow
      rw [hrow, Option.any_some] at hunchanged
      exact hquiet.known x hrow hunchanged
    refine (silently_backfillMetadata hcomplete hclient hknown).mono (fun _ db' hdb' => ?_)
      fun db' hdb' => ?_
    · rw [hdb']
      exact .same
    · rw [hdb']
      exact .same
  · refine silently_bind (silently_told (ends_probeLookupDue_eq ?_ fun _ => .same))
    refine silently_ite (fun hdue => ?_) fun _ => silently_pure .same
    rcases hprobe : w.file.probe with _ | height
    · refine silently_told (ends_execute (fun db' hdb' => ?_) fun _ => .same)
      obtain rfl := Option.some.inj hdb'
      exact .failed hprobe fun path hne => AList.lookup_insert_ne hne
    · have hindexes : Indexes env w height db := by
        refine ⟨fun x hx => ?_, hdue, hprobe⟩
        rw [hx, Option.any_some, Bool.not_eq_true] at hchanged
        exact hchanged
      refine silently_bind (silently_told (ends_execute (fun db' hdb' => ?_) fun _ => .same))
      obtain rfl := Option.some.inj hdb'
      rw [hquiet.unknown height hindexes]
      refine silently_logged (silently_bind (silently_told
        (ends_upsertMediaFile_stored.mono (fun id db' hdb' => ?_) fun db' hdb' => ?_)))
      · rw [hdb']
        exact silently_pure (.stored hindexes)
      · rcases hdb' with rfl | rfl
        · exact .cleared hindexes
        · exact .stored hindexes

/-! ### A walk in which there is nothing to fetch -/

theorem file_eq_of_path_eq (hdisk : (env.disk.map DiskFile.path).Nodup) (hw : w ∈ walkRoots env)
    (hv : v ∈ walkRoots env) (hpath : w.file.path = v.file.path) : w.file = v.file := by
  have hmem {u : WalkedFile} (hu : u ∈ walkRoots env) : u.file ∈ env.disk := by
    obtain ⟨root, _, hu⟩ := List.mem_flatMap.mp hu
    obtain ⟨f, hf, rfl⟩ := List.mem_map.mp hu
    exact List.mem_of_mem_filter hf
  exact List.inj_on_of_nodup_map hdisk (hmem hw) (hmem hv) hpath

theorem Indexes.of_file_eq (h : Indexes env v height db) (hfile : w.file = v.file) :
    Indexes env w height db := by
  rw [Indexes, hfile]
  exact h

theorem Visited.hasFile {id : ℕ} (h : Visited env w db db') (hfile : db.HasFile id path) :
    db'.HasFile id path := by
  cases h with
  | stored => exact hfile.upsert (w.file.row _)
  | same | failed | cleared => exact hfile

theorem Visited.fileRow (h : Visited env v db db') (hne : path ≠ v.file.path) :
    db'.fileRow path = db.fileRow path := by
  cases h with
  | stored =>
    refine AutoTable.find?_upsert_of_not (fun x _ hx => ?_) (decide_eq_false fun h => hne h.symm)
    exact decide_eq_false fun h => hne (h.symm.trans (of_decide_eq_true hx))
  | same | failed | cleared => rfl

theorem Visited.lookup (h : Visited env v db db') (hne : path ≠ v.file.path) :
    db'.probeFailures.lookup path = db.probeFailures.lookup path := by
  cases h with
  | failed _ hothers => exact hothers path hne
  | cleared | stored => exact AList.lookup_erase_ne hne
  | same => rfl

theorem Indexes.of_visited (h : Indexes env w height db') (hvisited : Visited env v db db')
    (hfile : w.file.path = v.file.path → w.file = v.file) :
    ∃ height, Indexes env w height db := by
  by_cases hpath : w.file.path = v.file.path
  · cases hvisited with
    | same => exact ⟨_, h⟩
    | failed hprobe _ =>
      obtain ⟨_, _, hprobe'⟩ := h
      rw [hfile hpath, hprobe] at hprobe'
      cases hprobe'
    | cleared hindexes | stored hindexes => exact ⟨_, hindexes.of_file_eq (hfile hpath)⟩
  · obtain ⟨hrow, hdue, hprobe⟩ := h
    rw [hvisited.fileRow hpath] at hrow
    rw [probeDue, hvisited.lookup hpath] at hdue
    exact ⟨height, hrow, hdue, hprobe⟩

/-- **There is still nothing to fetch for a file after a visit of another.** -/
theorem Quiet.visited (h : Quiet env w db) (hvisited : Visited env v db db')
    (hfile : w.file.path = v.file.path → w.file = v.file) : Quiet env w db' where
  known x hrow hunchanged := by
    by_cases hpath : w.file.path = v.file.path
    · cases hvisited with
      | same | failed | cleared => exact h.known x hrow hunchanged
      | stored hindexes =>
        rw [h.unknown _ (hindexes.of_file_eq (hfile hpath))]
        trivial
    · rw [hvisited.fileRow hpath] at hrow
      cases hvisited with
      | same | failed | cleared | stored => exact h.known x hrow hunchanged
  unknown height hindexes := by
    obtain ⟨height', hindexes'⟩ := hindexes.of_visited hvisited hfile
    exact h.unknown height' hindexes'

/-- **What a walk in which there is nothing to fetch leaves**: the titles, the rows of files, and
new rows for the files it has indexed. -/
structure Walked (env : ScanEnv) (db db' : MediaDb) : Prop where
  movies : db'.movies = db.movies
  shows : db'.shows = db.shows
  episodes : db'.episodes = db.episodes
  quiet : ∀ w ∈ walkRoots env, Quiet env w db'
  files : ∀ id path, db.HasFile id path → db'.HasFile id path
  paths : ∀ y ∈ db'.files, y.2.path ∈ db.files.rows.map (fun y => y.2.path) ∨
    ∃ w ∈ walkRoots env, (∃ height, Indexes env w height db) ∧ w.file.path = y.2.path
  indexes : ∀ w ∈ walkRoots env, ∀ height, Indexes env w height db' →
    ∃ height, Indexes env w height db

theorem walked_refl (h : ∀ w ∈ walkRoots env, Quiet env w db) : Walked env db db :=
  ⟨rfl, rfl, rfl, h, fun _ _ h => h, fun _ hy => .inl (List.mem_map_of_mem hy),
    fun _ _ height h => ⟨height, h⟩⟩

/-- **One visit more.** -/
theorem Walked.visited {db₀ : MediaDb} (hdisk : (env.disk.map DiskFile.path).Nodup)
    (h : Walked env db₀ db) (hv : v ∈ walkRoots env) (hvisited : Visited env v db db') :
    Walked env db₀ db' where
  movies := by
    rw [← h.movies]
    cases hvisited <;> rfl
  shows := by
    rw [← h.shows]
    cases hvisited <;> rfl
  episodes := by
    rw [← h.episodes]
    cases hvisited <;> rfl
  quiet w hw := (h.quiet w hw).visited hvisited (file_eq_of_path_eq hdisk hw hv)
  files id path hfile := hvisited.hasFile (h.files id path hfile)
  paths y hy := by
    cases hvisited with
    | same | failed | cleared => exact h.paths y hy
    | @stored height hindexes =>
      obtain ⟨i, hi, hothers⟩ := AutoTable.exists_mem_upsert (fun f => f.path = v.file.path)
        (v.file.row height) db.files
      by_cases hne : y.1 = i
      · obtain rfl : y = (i, v.file.row height) := AutoTable.eq_of_fst_eq hy hi hne
        exact .inr ⟨v, hv, h.indexes v hv height hindexes, rfl⟩
      · exact h.paths y ((hothers y hne).mp hy)
  indexes w hw height hindexes := by
    obtain ⟨height', hindexes'⟩ :=
      hindexes.of_visited hvisited (file_eq_of_path_eq hdisk hw hv)
    exact h.indexes w hw height' hindexes'

theorem Walked.complete (h : Walked env db db') (hcomplete : db.Complete) : db'.Complete := by
  obtain ⟨hmovies, hshows, hepisodes⟩ := hcomplete
  refine ⟨?_, ?_, ?_⟩
  · rwa [h.movies]
  · rwa [h.shows]
  · rwa [h.episodes]

/-- **A walk in which there is nothing to fetch sends nothing**, whatever fails. -/
theorem silently_scanFiles {db₀ : MediaDb} (hdisk : (env.disk.map DiskFile.path).Nodup)
    (hclient : ∀ tmdbId season, env.tmdb.episode tmdbId season 0 = .definitiveMiss)
    (hcomplete : db₀.Complete) : ∀ {walk : List WalkedFile} {db : MediaDb},
      walk ⊆ walkRoots env → Walked env db₀ db →
        Silently (Requests.scanFiles env walk) (fun _ => Walked env db₀) (Walked env db₀) db
  | [], _, _, h => silently_pure h
  | w :: walk, db, hwalk, h => by
    obtain ⟨hw, hwalk⟩ := List.cons_subset.mp hwalk
    refine silently_bind ((silently_scanFile (h.complete hcomplete) hclient (h.quiet w hw)).mono
      (fun _ db' hvisited => ?_) fun db' hvisited => h.visited hdisk hw hvisited)
    exact silently_scanFiles hdisk hclient hcomplete hwalk (h.visited hdisk hw hvisited)

end visits

/-! ### The end of a scan -/

section reconciliation

variable {env : ScanEnv} {db db₁ : MediaDb} {id : ℕ} {path : Path}

theorem Walked.mem_missingFiles (h : Walked env db db₁) (hfile : db.HasFile id path) :
    id ∈ missingFiles env db₁.files.rows ↔ Picked env path := by
  obtain ⟨f, hf, rfl⟩ := h.files id path hfile
  exact MediaCore.mem_missingFiles (x := (id, f)) ⟨f, hf, rfl⟩

theorem exists_picked_of_mem (h : id ∈ missingFiles env db.files.rows) :
    ∃ y ∈ db.files, y.1 = id ∧ Picked env y.2.path := by
  obtain ⟨y, hy, rfl⟩ := List.mem_map.mp h
  have hmem : y ∈ db.files := List.mem_of_mem_filter hy
  exact ⟨y, hmem, rfl, (MediaCore.mem_missingFiles ⟨y.2, hmem, rfl⟩).mp h⟩

theorem ends_reconcile_nothing {P : MediaDb → Prop} (hnone : missingFiles env db.files.rows = [])
    (hwatch : ∀ watch, P { db with watch := watch }) (h : P db) :
    Ends (reconcile env) (fun _ => P) P db := by
  have hprune : Ends (pruneMissingFiles env) (fun _ db' => db' = db) (fun db' => db' = db) db := by
    refine ends_ite (fun _ => ends_pure rfl) fun _ => ends_bind (ends_select ?_ fun _ => rfl)
    rw [hnone]
    exact ends_bind (ends_pure (ends_ite (by rintro ⟨⟩) fun _ => ends_pure rfl))
  refine ends_ite (fun _ => ends_pure h) fun _ => ?_
  refine ends_bind (ends_logged (hprune.mono (fun _ db' hdb' => ?_) fun db' hdb' => ?_))
  all_goals
    subst hdb'
    refine ends_logged (ends_execute (fun db'' hdb'' => ?_) fun _ => h)
    obtain rfl := Option.some.inj hdb''
    exact hwatch _

/-- **What the prune deletes leaves the titles alone.** -/
theorem ends_reconcile_sameTitles (hlinked : Linked db) (hunpruned : Unpruned env db)
    (h : Walked env db db₁) :
    Ends (reconcile env) (fun _ => SameTitles db) (SameTitles db) db₁ := by
  have hsame : SameTitles db db₁ := by
    rw [SameTitles, h.movies, h.shows, h.episodes]
    exact ⟨rfl, rfl, rfl⟩
  rcases hunpruned.shows with hshows | ⟨hfiles, hwalked⟩
  · -- no show is without episodes
    have hends : Ends (reconcile env) _ _ db₁ := ends_reconcile
      (P := fun db' => db'.movies = db.movies ∧ db'.shows = db.shows ∧ db'.episodes = db.episodes)
      (fun {db' id} hid hdb' => ?_) (fun {db'} hdb' => ?_) (fun hdb' => hdb')
      ⟨h.movies, h.shows, h.episodes⟩
    · refine hends.mono (fun _ db' hdb' => ?_) fun db' hdb' => ?_
      all_goals
        rw [SameTitles, hdb'.1, hdb'.2.1, hdb'.2.2]
        exact ⟨rfl, rfl, rfl⟩
    · obtain ⟨hmovies, hshows, hepisodes⟩ := hdb'
      refine ⟨?_, hshows, ?_⟩
      · show db'.movies.remove _ = _
        rw [hmovies]
        refine AutoTable.remove_eq_self fun x hx => decide_eq_false ?_
        rintro rfl
        obtain ⟨path, hfile⟩ := hlinked.movies x hx
        exact hunpruned.movies x hx path hfile ((h.mem_missingFiles hfile).mp hid)
      · show db'.episodes.remove _ = _
        rw [hepisodes]
        refine AutoTable.remove_eq_self fun x hx => decide_eq_false ?_
        rintro rfl
        obtain ⟨path, hfile⟩ := hlinked.episodes x hx
        exact hunpruned.episodes x hx path hfile ((h.mem_missingFiles hfile).mp hid)
    · obtain ⟨hmovies, hshows', hepisodes⟩ := hdb'
      refine ⟨hmovies, ?_, hepisodes⟩
      show db'.shows.remove _ = _
      rw [hshows', hepisodes]
      refine AutoTable.remove_eq_self fun x hx => ?_
      obtain ⟨e, he, hshow⟩ := hshows x hx
      rw [Bool.not_eq_false', List.any_eq_true]
      exact ⟨e, he, decide_eq_true hshow⟩
  · -- nothing is deleted
    refine ends_reconcile_nothing (List.eq_nil_iff_forall_not_mem.mpr fun id hid => ?_)
      (fun watch => hsame) hsame
    obtain ⟨y, hy, rfl, hpicked⟩ := exists_picked_of_mem hid
    rcases h.paths y hy with hpath | ⟨w, hw, ⟨height, hindexes⟩, hpath⟩
    · obtain ⟨z, hz, hpath⟩ := List.mem_map.mp hpath
      exact hfiles z hz (hpath.symm ▸ hpicked)
    · exact hwalked w hw height hindexes (hpath.symm ▸ hpicked)

/-- **What the prune deletes takes its titles along**, and shows without episodes go with it. -/
structure Swept (ids : List ℕ) (db : MediaDb) : Prop where
  movies : ∀ x ∈ db.movies, x.2.fileId ∉ ids
  episodes : ∀ x ∈ db.episodes, x.2.fileId ∉ ids
  shows : ids ≠ [] → ∀ x ∈ db.shows, ∃ e ∈ db.episodes, e.2.showId = x.1

theorem ends_deleteFiles_swept (hfails : ¬ env.Faulty) : ∀ (ids : List ℕ) (db : MediaDb),
    Ends (deleteFiles env ids)
      (fun removed db' => (∀ x ∈ db'.movies, x ∈ db.movies ∧ x.2.fileId ∉ ids) ∧
        (∀ x ∈ db'.episodes, x ∈ db.episodes ∧ x.2.fileId ∉ ids) ∧
        ((∃ y ∈ db.files, y.1 ∈ ids) → removed = true)) (fun _ => False) db
  | [], db => ends_pure ⟨fun x hx => ⟨hx, List.not_mem_nil⟩, fun x hx => ⟨hx, List.not_mem_nil⟩,
      by rintro ⟨y, _, hy⟩; exact absurd hy List.not_mem_nil⟩
  | id :: ids, db => by
    refine ends_bind (ends_statement (fun removed db₁ hdb₁ => ?_)
      fun h => h.elim hfails (by rintro ⟨⟩))
    obtain ⟨rfl, rfl⟩ := Prod.mk.inj (Option.some.inj hdb₁)
    refine ends_bind ((ends_deleteFiles_swept hfails ids (db.deleteFile id)).mono
      (fun more db' h => ends_pure ?_) fun _ h => h)
    obtain ⟨hmovies, hepisodes, hmore⟩ := h
    refine ⟨fun x hx => ?_, fun x hx => ?_, ?_⟩
    · obtain ⟨hx, hids⟩ := hmovies x hx
      obtain ⟨hx, hid⟩ := AutoTable.mem_remove.mp hx
      exact ⟨hx, List.not_mem_cons_of_ne_of_not_mem (of_decide_eq_false hid) hids⟩
    · obtain ⟨hx, hids⟩ := hepisodes x hx
      obtain ⟨hx, hid⟩ := AutoTable.mem_remove.mp hx
      exact ⟨hx, List.not_mem_cons_of_ne_of_not_mem (of_decide_eq_false hid) hids⟩
    · rintro ⟨y, hy, hmem⟩
      rw [Bool.or_eq_true]
      by_cases hid : y.1 = id
      · subst hid
        rw [AutoTable.get?_eq_some.mpr hy]
        exact .inl rfl
      · refine .inr (hmore ⟨y, AutoTable.mem_remove.mpr ⟨hy, decide_eq_false hid⟩, ?_⟩)
        exact (List.mem_cons.mp hmem).resolve_left hid

/-- **The end of a scan in which nothing fails.** -/
theorem ends_reconcile_swept (hfails : ¬ env.Faulty) :
    Ends (reconcile env) (fun _ => Swept (missingFiles env db.files.rows)) (fun _ => False) db := by
  have hempty (hnil : prunableRoots env = []) : Swept (missingFiles env db.files.rows) db := by
    rw [missingFiles, hnil]
    exact ⟨by simp, by simp, by simp⟩
  have hprune : Ends (pruneMissingFiles env)
      (fun _ => Swept (missingFiles env db.files.rows)) (fun _ => False) db := by
    refine ends_ite (fun hnil => ends_pure (hempty hnil)) fun _ => ?_
    refine ends_bind (ends_select ?_ hfails)
    refine ends_bind ((ends_deleteFiles_swept hfails _ db).mono (fun removed db' h => ?_)
      fun _ h => h)
    obtain ⟨hmovies, hepisodes, hremoved⟩ := h
    refine ends_ite (fun _ => ?_) fun hnot => ?_
    · refine ends_execute (fun db'' hdb'' => ?_) fun h => h.elim hfails (by rintro ⟨⟩)
      obtain rfl := Option.some.inj hdb''
      refine ⟨fun x hx => (hmovies x hx).2, fun x hx => (hepisodes x hx).2, fun _ x hx => ?_⟩
      obtain ⟨_, hany⟩ := AutoTable.mem_remove.mp hx
      rw [Bool.not_eq_false', List.any_eq_true] at hany
      obtain ⟨e, he, hshow⟩ := hany
      exact ⟨e, he, of_decide_eq_true hshow⟩
    · refine ends_pure ⟨fun x hx => (hmovies x hx).2, fun x hx => (hepisodes x hx).2,
        fun hne => ?_⟩
      obtain ⟨id, hid⟩ := List.exists_mem_of_ne_nil _ hne
      obtain ⟨y, hy, rfl, _⟩ := exists_picked_of_mem hid
      exact absurd (hremoved ⟨y, hy, hid⟩) hnot
  refine ends_ite (fun hnil => ends_pure (hempty (by rw [prunableRoots, hnil]; rfl))) fun _ => ?_
  refine ends_bind (ends_logged (hprune.mono (fun _ db' h => ?_) fun _ h => h.elim))
  refine ends_logged (ends_execute (fun db'' hdb'' => ?_)
    fun h => absurd (h.resolve_right (by rintro ⟨⟩)) hfails)
  obtain rfl := Option.some.inj hdb''
  exact ⟨h.movies, h.episodes, h.shows⟩

end reconciliation

/-! ### What is asked -/

section asked

variable {env : ScanEnv} {w : WalkedFile} {db : MediaDb} {path : Path} {fileId : ℕ}

/-- **What does not find its title is asked for.** -/
theorem sends_backfillMetadata (hfails : ¬ env.Faulty) {x : ℕ × MediaFile} {parsed : ParsedName}
    (hrow : db.fileRow path = some x) (hunknown : ¬ Known env x.1 db parsed) :
    Sends (Requests.backfillMetadata env path parsed) db := by
  refine sends_told_bind (ends_select ?_ hfails)
  rw [hrow]
  rcases parsed with ⟨title, year⟩ | ⟨title, season, episode⟩ | _
  · have hnone : db.movies.find? (fun m => m.fileId = x.1) = none :=
      AutoTable.find?_eq_none.mpr fun y hy => decide_eq_false fun h => hunknown ⟨y, hy, h⟩
    refine sends_told_bind (ends_select ?_ hfails)
    rw [hnone]
    exact sends_bind_left (sends_ask rfl)
  · refine sends_told_bind (ends_select ?_ hfails)
    rcases hstored : storedShowMatch env title db with _ | ⟨showId, tmdbId⟩
    · exact sends_bind_left (sends_ask rfl)
    · refine sends_told_bind (ends_bind (ends_select ?_ hfails))
      rcases hepisode : db.episodeRow showId season episode with _ | y
      · refine ends_pure (sends_bind_left (sends_ask (decide_eq_true (Nat.pos_of_ne_zero ?_))))
        rintro rfl
        exact hunknown ⟨showId, tmdbId, hstored, .inl rfl⟩
      · exact absurd ⟨showId, tmdbId, hstored, .inr ⟨y, hepisode⟩⟩ hunknown
  · exact absurd trivial hunknown

theorem ends_upsertMediaFile_completes {height : Option ℤ} (hfails : ¬ env.Faulty) :
    Ends (upsertMediaFile env w.file height)
      (fun _ db' => ∃ id, db'.HasFile id w.file.path) (fun _ => False) db := by
  obtain ⟨i, hi, _⟩ := AutoTable.exists_mem_upsert (fun f => f.path = w.file.path)
    (w.file.row height) db.files
  refine ends_bind (ends_execute (fun db' hdb' => ?_) fun h => h.elim hfails (by rintro ⟨⟩))
  obtain rfl := Option.some.inj hdb'
  refine ends_fetchOne (fun _ _ => ⟨i, _, hi, rfl⟩) fun h => h.elim hfails fun hnone => ?_
  rw [Option.map_eq_none_iff, MediaDb.fileRow, AutoTable.find?_eq_none] at hnone
  exact of_decide_eq_false (hnone _ hi) rfl

/-- **A title that is indexed is asked for.** -/
theorem sends_indexFile {height : Option ℤ} (hfails : ¬ env.Faulty) {parsed : ParsedName}
    (hknown : parsed ≠ .unknown) : Sends (Requests.indexFile env w.file height parsed) db := by
  refine sends_told_bind ((ends_upsertMediaFile_completes hfails).mono (fun fileId db' _ => ?_)
    fun _ h => h)
  rcases parsed with ⟨title, year⟩ | ⟨title, season, episode⟩ | _
  · exact sends_bind_left (sends_ask rfl)
  · exact sends_bind_left (sends_ask rfl)
  · exact absurd rfl hknown

/-- **A visit with something to fetch asks for it.** -/
theorem sends_scanFile (hfails : ¬ env.Faulty) (hquiet : ¬ Quiet env w db) :
    Sends (Requests.scanFile env w) db := by
  refine sends_recover (ends_select ?_ hfails)
  by_cases hunchanged : ((db.fileRow w.file.path).any fun x => w.file.unchanged x.2) = true
  · rw [if_pos hunchanged]
    obtain ⟨x, hrow, hx⟩ := (Option.any_eq_true _ _).mp hunchanged
    refine sends_logged (sends_backfillMetadata hfails hrow fun hknown => hquiet ⟨?_, ?_⟩)
    · intro y hy _
      rwa [← Option.some.inj (hrow.symm.trans hy)]
    · rintro height ⟨hchanged, _, _⟩
      rw [hchanged x hrow] at hx
      cases hx
  · rw [if_neg hunchanged]
    have hindexes : ∃ height, Indexes env w height db ∧ w.parsed env ≠ .unknown := by
      by_contra hnone
      refine hquiet ⟨fun x hrow hx => absurd ?_ hunchanged, fun height hindexes => ?_⟩
      · rw [hrow, Option.any_some]
        exact hx
      · exact not_not.mp fun hne => hnone ⟨height, hindexes, hne⟩
    obtain ⟨height, ⟨_, hdue, hprobe⟩, hne⟩ := hindexes
    refine sends_told_bind (ends_probeLookupDue_eq ?_ hfails)
    rw [hdue, hprobe]
    refine sends_told_bind (ends_execute (fun db' _ => ?_) fun h => h.elim hfails (by rintro ⟨⟩))
    exact sends_logged (sends_indexFile hfails hne)

theorem ends_scanFile_stored {height : Option ℤ} (hfails : ¬ env.Faulty)
    (hindexes : Indexes env w height db) (hunknown : w.parsed env = .unknown) :
    Ends (MediaCore.scanFile env w) (fun _ db' => ∃ id, db'.HasFile id w.file.path)
      (fun _ => False) db := by
  obtain ⟨hchanged, hdue, hprobe⟩ := hindexes
  refine ends_recover (ends_select ?_ fun h => absurd h hfails)
  have hnot : ¬ ((db.fileRow w.file.path).any fun x => w.file.unchanged x.2) = true := by
    intro h
    obtain ⟨x, hrow, hx⟩ := (Option.any_eq_true _ _).mp h
    rw [hchanged x hrow] at hx
    cases hx
  rw [if_neg hnot]
  refine ends_bind (ends_probeLookupDue_eq ?_ hfails)
  rw [hdue, hprobe, hunknown]
  refine ends_bind (ends_execute (fun db' _ => ?_) fun h => h.elim hfails (by rintro ⟨⟩))
  exact ends_logged (ends_bind ((ends_upsertMediaFile_completes hfails).mono
    (fun _ _ hfile => ends_pure hfile) fun _ h => h.elim))

end asked

/-! ### Exactly then -/

section idle

variable {env : ScanEnv} {w : WalkedFile} {db : MediaDb} {walk : List WalkedFile}

/-- **Where there is nothing to do nothing is done**, in any order and whatever fails. -/
theorem idle_of_steady (hdisk : (env.disk.map DiskFile.path).Nodup)
    (hclient : ∀ tmdbId season, env.tmdb.episode tmdbId season 0 = .definitiveMiss)
    (hcomplete : db.Complete) (hlinked : Linked db) (hsteady : Steady env db)
    (hwalk : walk ⊆ walkRoots env) : Idle env walk db := by
  have hscan : Silently (Requests.scanOnce env walk) (fun _ => SameTitles db) (SameTitles db)
      db := by
    refine silently_bind ((silently_scanFiles hdisk hclient hcomplete hwalk
      (walked_refl hsteady.quiet)).mono (fun _ db₁ h => ?_) fun db₁ h => ?_)
    · exact silently_told (ends_reconcile_sameTitles hlinked hsteady.unpruned h)
    · rw [SameTitles, h.movies, h.shows, h.episodes]
      exact ⟨rfl, rfl, rfl⟩
  obtain ⟨hsent, hends⟩ := hscan 0
  refine ⟨hsent, ?_⟩
  rw [erase_scanOnce, Wp] at hends
  rcases hrun : MediaCore.scanOnce env walk ⟨db, 0⟩ with ⟨_ | a, s⟩
  all_goals
    rw [hrun] at hends
    exact hends

theorem exists_perm_cons (hw : w ∈ walkRoots env) : ∃ rest, (w :: rest).Perm (walkRoots env) := by
  obtain ⟨before, after, heq⟩ := List.append_of_mem hw
  exact ⟨before ++ after, heq ▸ List.perm_middle.symm⟩

/-- **A scan that does nothing, in any order, has nothing to fetch.** -/
theorem quiet_of_idle (hfails : ¬ env.Faulty)
    (hidle : ∀ walk, walk.Perm (walkRoots env) → Idle env walk db) (hw : w ∈ walkRoots env) :
    Quiet env w db := by
  by_contra hquiet
  obtain ⟨rest, hperm⟩ := exists_perm_cons hw
  exact sends_bind_left (sends_bind_left (sends_scanFile hfails hquiet)) 0 (hidle _ hperm).1

/-- **A scan that has nothing to fetch**, where nothing fails: its walk, and what is swept then. -/
theorem ends_scanOnce_swept (hfails : ¬ env.Faulty) (hdisk : (env.disk.map DiskFile.path).Nodup)
    (hclient : ∀ tmdbId season, env.tmdb.episode tmdbId season 0 = .definitiveMiss)
    (hcomplete : db.Complete) (hquiet : ∀ w ∈ walkRoots env, Quiet env w db)
    (hwalk : walk ⊆ walkRoots env) :
    Ends (MediaCore.scanOnce env walk)
      (fun _ db' => ∃ db₁, Walked env db db₁ ∧
        (∀ w rest, walk = w :: rest → ∀ height, Indexes env w height db →
          ∃ id, db₁.HasFile id w.file.path) ∧
        Swept (missingFiles env db₁.files.rows) db')
      (fun _ => False) db := by
  have hrest {db₀ db₁ : MediaDb} {rest : List WalkedFile} (hrest : rest ⊆ walkRoots env)
      (hcomplete : db₀.Complete) (h : Walked env db₀ db₁) :
      Ends (MediaCore.scanFiles env rest) (fun _ => Walked env db₀) (fun _ => False) db₁ := by
    have hends := (silently_scanFiles hdisk hclient hcomplete hrest h).ends
    rw [erase_scanFiles] at hends
    exact (hends.and (ends_scanFiles_faulty rest)).mono (fun _ _ h => h.1) fun _ h => hfails h.2
  refine ends_bind (Ends.mono (Q := fun _ db₁ => Walked env db db₁ ∧
    ∀ w rest, walk = w :: rest → ∀ height, Indexes env w height db →
      ∃ id, db₁.HasFile id w.file.path) (E := fun _ => False) ?_ (fun _ db₁ h => ?_) fun _ h => h)
  · rcases walk with _ | ⟨v, rest⟩
    · exact ends_pure ⟨walked_refl hquiet, by rintro w rest ⟨⟩⟩
    · obtain ⟨hv, hsub⟩ := List.cons_subset.mp hwalk
      have hvisit := (silently_scanFile hcomplete hclient (hquiet v hv)).ends
      rw [erase_scanFile] at hvisit
      have hstored : Ends (MediaCore.scanFile env v)
          (fun _ db₁ => ∀ height, Indexes env v height db → ∃ id, db₁.HasFile id v.file.path)
          (fun _ => True) db := by
        by_cases hindexes : ∃ height, Indexes env v height db
        · obtain ⟨height, hindexes⟩ := hindexes
          exact (ends_scanFile_stored hfails hindexes
            ((hquiet v hv).unknown height hindexes)).mono (fun _ _ h _ _ => h) fun _ _ => trivial
        · exact ends_true.mono (fun _ _ _ height h => absurd ⟨height, h⟩ hindexes) fun _ h => h
      refine ends_bind (((hvisit.and hstored).and ends_scanFile_faulty).mono
        (fun _ db₁ h => ?_) fun _ h => hfails h.2)
      obtain ⟨⟨hvisited, hfile⟩, _⟩ := h
      have hwalked : Walked env db db₁ := (walked_refl hquiet).visited hdisk hv hvisited
      refine ((hrest hsub hcomplete hwalked).and (hrest hsub (hwalked.complete hcomplete)
        (walked_refl hwalked.quiet))).mono (fun _ db₂ h => ⟨h.1, ?_⟩) fun _ h => h.1
      rintro w rest' ⟨⟩ height hindexes
      obtain ⟨id, hid⟩ := hfile height hindexes
      exact ⟨id, h.2.files id _ hid⟩
  · obtain ⟨hwalked, hfile⟩ := h
    exact (ends_reconcile_swept hfails).mono (fun _ _ hswept => ⟨db₁, hwalked, hfile, hswept⟩)
      fun _ h => h

/-- **A scan that does nothing, in any order, deletes nothing that backs a title.** -/
theorem unpruned_of_idle (hfails : ¬ env.Faulty) (hdisk : (env.disk.map DiskFile.path).Nodup)
    (hclient : ∀ tmdbId season, env.tmdb.episode tmdbId season 0 = .definitiveMiss)
    (hcomplete : db.Complete)
    (hidle : ∀ walk, walk.Perm (walkRoots env) → Idle env walk db) : Unpruned env db := by
  have hswept (walk : List WalkedFile) (hperm : walk.Perm (walkRoots env)) :
      ∃ db₁ db', SameTitles db db' ∧ Walked env db db₁ ∧
        (∀ w rest, walk = w :: rest → ∀ height, Indexes env w height db →
          ∃ id, db₁.HasFile id w.file.path) ∧ Swept (missingFiles env db₁.files.rows) db' := by
    have hends := ends_scanOnce_swept hfails hdisk hclient hcomplete
      (fun w hw => quiet_of_idle hfails hidle hw) hperm.subset 0
    have hsame := (hidle walk hperm).2
    rw [Wp] at hends
    rcases hrun : MediaCore.scanOnce env walk ⟨db, 0⟩ with ⟨_ | a, s⟩
    · rw [hrun] at hends
      exact hends.elim
    · rw [hrun] at hends hsame
      obtain ⟨db₁, hwalked, hfile, hswept⟩ := hends
      exact ⟨db₁, s.db, hsame, hwalked, hfile, hswept⟩
  have hnone {x : ℕ × Show} (hx : x ∈ db.shows)
      (hbare : ¬ ∃ e ∈ db.episodes, e.2.showId = x.1) {db₁ db' : MediaDb}
      (hsame : SameTitles db db') (h : Swept (missingFiles env db₁.files.rows) db') {id : ℕ} :
      id ∉ missingFiles env db₁.files.rows := by
    intro hid
    obtain ⟨_, hshows, hepisodes⟩ := hsame
    rw [AutoTable.mem_def, ← hshows] at hx
    obtain ⟨e, he, hshow⟩ := h.shows (List.ne_nil_of_mem hid) x hx
    rw [AutoTable.mem_def, hepisodes] at he
    exact hbare ⟨e, he, hshow⟩
  refine ⟨fun x hx path hfile hpicked => ?_, fun x hx path hfile hpicked => ?_, ?_⟩
  · obtain ⟨db₁, db', ⟨hmovies, _⟩, hwalked, _, h⟩ := hswept _ (.refl _)
    rw [AutoTable.mem_def, ← hmovies] at hx
    exact h.movies x hx ((hwalked.mem_missingFiles hfile).mpr hpicked)
  · obtain ⟨db₁, db', ⟨_, _, hepisodes⟩, hwalked, _, h⟩ := hswept _ (.refl _)
    rw [AutoTable.mem_def, ← hepisodes] at hx
    exact h.episodes x hx ((hwalked.mem_missingFiles hfile).mpr hpicked)
  · by_cases hshows : ∀ x ∈ db.shows, ∃ e ∈ db.episodes, e.2.showId = x.1
    · exact .inl hshows
    · obtain ⟨x, hshow⟩ := not_forall.mp hshows
      obtain ⟨hx, hbare⟩ := Classical.not_imp.mp hshow
      refine .inr ⟨fun y hy hpicked => ?_, fun w hw height hindexes hpicked => ?_⟩
      · obtain ⟨db₁, db', hsame, hwalked, _, h⟩ := hswept _ (.refl _)
        have hfile : db.HasFile y.1 y.2.path := ⟨y.2, hy, rfl⟩
        exact hnone hx hbare hsame h ((hwalked.mem_missingFiles hfile).mpr hpicked)
      · obtain ⟨rest, hperm⟩ := exists_perm_cons hw
        obtain ⟨db₁, db', hsame, hwalked, hfile, h⟩ := hswept _ hperm
        obtain ⟨id, f, hf, hpath⟩ := hfile w rest rfl height hindexes
        exact hnone hx hbare hsame h ((MediaCore.mem_missingFiles (x := (id, f))
          ⟨f, hf, rfl⟩).mpr (hpath ▸ hpicked))

/-- **A further scan does nothing exactly if each file finds its title, and what is deleted backs
none.** The catalog is one that some scans have come to and in which every title is matched, rated
and named; the scan goes in any order, and any statement of it may fail. -/
theorem idle_iff (lib : Library) (m : Moment) (hdisk : (m.disk.map DiskFile.path).Nodup)
    (hclient : ∀ tmdbId season, m.tmdb.episode tmdbId season 0 = .definitiveMiss)
    (hruns : Runs (step lib) anyStep {} ⟨db, none⟩) (hcomplete : db.Complete) :
    (∀ fails walk, walk.Perm (walkRoots ⟨lib, m⟩) →
      Idle ⟨lib, { m with fails := fails }⟩ walk db) ↔ Steady ⟨lib, m⟩ db := by
  constructor
  · intro hidle
    have hnever : ¬ ScanEnv.Faulty ⟨lib, { m with fails := fun _ => false }⟩ := by
      rintro ⟨n, ⟨⟩⟩
    have hidle' := hidle fun _ => false
    have hquiet : ∀ w ∈ walkRoots ⟨lib, { m with fails := fun _ => false }⟩,
        Quiet ⟨lib, { m with fails := fun _ => false }⟩ w db :=
      fun w hw => quiet_of_idle hnever hidle' hw
    have hunpruned := unpruned_of_idle hnever hdisk hclient hcomplete hidle'
    exact ⟨fun w hw => ⟨(hquiet w hw).known, (hquiet w hw).unknown⟩,
      ⟨hunpruned.movies, hunpruned.episodes, hunpruned.shows⟩⟩
  · rintro ⟨hquiet, hunpruned⟩ fails walk hperm
    refine idle_of_steady hdisk hclient hcomplete (linked_of_runs hruns) ⟨fun w hw => ?_, ?_⟩
      hperm.subset
    · exact ⟨(hquiet w hw).known, (hquiet w hw).unknown⟩
    · exact ⟨hunpruned.movies, hunpruned.episodes, hunpruned.shows⟩

end idle

/-! ### Two files of one film -/

section films

/-- **Every scan finds the files and TMDB as this one does**, and nothing fails. -/
def Unchanging (m : Moment) (_ : Scans) : ScanAction → Prop
  | .start m' _ => m'.disk = m.disk ∧ m'.tmdb = m.tmdb ∧ ∀ n, m'.fails n = false
  | _ => True

def filmsOnly : Library where
  unicode := .ascii
  roots := [⟨["films"], .movies⟩]
  rfc3339 _ := ""
  parseRfc3339 _ := none

def duneOnly : Tmdb where
  matchMovie title _ :=
    if title = "Dune" then .found ⟨438631, some "PG-13"⟩ else .definitiveMiss
  movieContentRating _ := .definitiveMiss
  matchShow _ := none
  episode _ _ _ := .definitiveMiss

def fullHdFilm : DiskFile :=
  ⟨["films", "Dune (2021)", "Dune (2021) 1080p.mkv"], 1, "1", some (some 1080), true⟩

def ultraHdFilm : DiskFile :=
  ⟨["films", "Dune (2021)", "Dune (2021) 2160p.mkv"], 2, "1", some (some 2160), true⟩

def bothFilms : Moment := { disk := [fullHdFilm, ultraHdFilm], tmdb := duneOnly, now := 0 }

/-- **The second file of a film is asked for in every scan**, with the film matched and rated,
nothing failing and nothing changed on the disk. -/
theorem not_idle_two_rips : ¬ ∀ (lib : Library) (m : Moment) (s : Scans) (walk : List WalkedFile),
    (m.disk.map DiskFile.path).Nodup →
      (∀ tmdbId season, m.tmdb.episode tmdbId season 0 = .definitiveMiss) →
      Runs (step lib) (Unchanging m) {} s → s.scan.isNone = true → s.db.Complete →
      walk.Perm (walkRoots ⟨lib, m⟩) → (∀ n, m.fails n = false) → Idle ⟨lib, m⟩ walk s.db := by
  intro hclaim
  let walk : List WalkedFile := [⟨.movies, fullHdFilm⟩, ⟨.movies, ultraHdFilm⟩]
  let actions : List ScanAction := [.start bothFilms walk, .visit, .visit, .reconcile]
  have hrows : (exec (step filmsOnly) {} actions).any (fun s =>
      s.scan.isNone ∧ s.db.movies.rows = [(1, ⟨some 438631, some "PG-13", 1, {}, {}⟩)] ∧
      s.db.shows.rows = [] ∧ s.db.episodes.rows = [] ∧
      (Requests.scanOnce ⟨filmsOnly, bothFilms⟩ walk).sent ⟨s.db, 0⟩ =
        [.movie "Dune" (some 2021)]) = true := by
    decide +kernel
  have hwalk : walk = walkRoots ⟨filmsOnly, bothFilms⟩ := by decide +kernel
  obtain ⟨s, hexec, hs⟩ := (Option.any_eq_true _ _).mp hrows
  obtain ⟨hscan, hmovies, hshows, hepisodes, hsent⟩ := of_decide_eq_true hs
  have hguard : ∀ a ∈ actions, ∀ v, Unchanging bothFilms v a := by
    intro a ha v
    simp only [actions, List.mem_cons, List.not_mem_nil, or_false] at ha
    rcases ha with rfl | rfl | rfl | rfl
    · exact ⟨rfl, rfl, fun _ => rfl⟩
    all_goals trivial
  have hcomplete : s.db.Complete := by
    refine ⟨fun x hx => ?_, fun x hx => ?_, fun x hx => ?_⟩
    · rw [AutoTable.mem_def, hmovies, List.mem_singleton] at hx
      subst hx
      exact ⟨rfl, rfl⟩
    · rw [AutoTable.mem_def, hshows] at hx
      exact absurd hx List.not_mem_nil
    · rw [AutoTable.mem_def, hepisodes] at hx
      exact absurd hx List.not_mem_nil
  have hidle := hclaim filmsOnly bothFilms s walk (by decide +kernel) (fun _ _ => rfl)
    (runs_of_exec_of_guard hguard hexec) hscan hcomplete (.of_eq hwalk) fun _ => rfl
  rw [Idle, hsent] at hidle
  exact List.cons_ne_nil _ _ hidle.1

def oneFilmFile : Moment := { disk := [fullHdFilm], tmdb := duneOnly, now := 0 }

/-- With one file of the film a further scan does nothing. -/
theorem idle_one_rip : Idle ⟨filmsOnly, oneFilmFile⟩ [⟨.movies, fullHdFilm⟩]
    (MediaCore.scanOnce ⟨filmsOnly, oneFilmFile⟩ [⟨.movies, fullHdFilm⟩] ⟨{}, 0⟩).2.db := by
  have hwalk : [⟨.movies, fullHdFilm⟩] = walkRoots ⟨filmsOnly, oneFilmFile⟩ := by decide +kernel
  have hruns : Runs (step filmsOnly) anyStep _ _ := runs_of_scanOnce (.of_eq hwalk) {}
  have hrows : (fun db : MediaDb => db.files.rows = [(1, fullHdFilm.row (some 1080))] ∧
      db.movies.rows = [(1, ⟨some 438631, some "PG-13", 1, {}, {}⟩)] ∧
      db.shows.rows = [] ∧ db.episodes.rows = [])
      (MediaCore.scanOnce ⟨filmsOnly, oneFilmFile⟩ [⟨.movies, fullHdFilm⟩] ⟨{}, 0⟩).2.db := by
    decide +kernel
  generalize (MediaCore.scanOnce ⟨filmsOnly, oneFilmFile⟩ [⟨.movies, fullHdFilm⟩] ⟨{}, 0⟩).2.db =
    db at hruns hrows ⊢
  obtain ⟨hfiles, hmovies, hshows, hepisodes⟩ := hrows
  have hunpicked : ¬ Picked ⟨filmsOnly, oneFilmFile⟩ fullHdFilm.path := by
    rintro ⟨root, hroot, _, hpick⟩
    obtain rfl := List.mem_singleton.mp (List.mem_of_mem_filter hroot)
    revert hpick
    decide +kernel
  have hpath {id : ℕ} {path : Path} (hfile : db.HasFile id path) : path = fullHdFilm.path := by
    obtain ⟨f, hf, rfl⟩ := hfile
    rw [AutoTable.mem_def, hfiles, List.mem_singleton] at hf
    rw [(Prod.mk.inj hf).2]
    rfl
  have hfilm : (1, ⟨some 438631, some "PG-13", 1, {}, {}⟩) ∈ db.movies := by
    rw [AutoTable.mem_def, hmovies]
    exact List.mem_singleton_self _
  have hmovie : ∀ x ∈ db.movies, x = (1, ⟨some 438631, some "PG-13", 1, {}, {}⟩) := by
    intro x hx
    rwa [AutoTable.mem_def, hmovies, List.mem_singleton] at hx
  have hshow : ∀ x, x ∉ db.shows := by
    intro x hx
    rw [AutoTable.mem_def, hshows] at hx
    exact absurd hx List.not_mem_nil
  have hepisode : ∀ x, x ∉ db.episodes := by
    intro x hx
    rw [AutoTable.mem_def, hepisodes] at hx
    exact absurd hx List.not_mem_nil
  have hcomplete : db.Complete := by
    refine ⟨fun x hx => ?_, fun x hx => absurd hx (hshow x), fun x hx => absurd hx (hepisode x)⟩
    rw [hmovie x hx]
    exact ⟨rfl, rfl⟩
  refine (idle_iff filmsOnly oneFilmFile (by decide) (fun _ _ => rfl) hruns hcomplete).mpr ⟨?_, ?_⟩
    (fun _ => false) _ (.of_eq hwalk)
  · intro w hw
    rw [← hwalk, List.mem_singleton] at hw
    subst hw
    have hrow : db.fileRow fullHdFilm.path = some (1, fullHdFilm.row (some 1080)) := by
      rw [MediaDb.fileRow, AutoTable.find?, hfiles]
      rfl
    refine ⟨fun x hx _ => ?_, fun height hindexes => ?_⟩
    · obtain rfl := Option.some.inj (hrow.symm.trans hx)
      have hparsed : WalkedFile.parsed ⟨filmsOnly, oneFilmFile⟩ ⟨.movies, fullHdFilm⟩ =
          .movie "Dune" (some 2021) := by
        show classify .ascii .movies fullHdFilm.path (fullHdFilm.path.getLastD "") = _
        decide +kernel
      rw [hparsed]
      exact ⟨_, hfilm, rfl⟩
    · -- the file is as it was
      exact absurd (hindexes.1 _ hrow) (by decide)
  · refine ⟨fun x _ path hfile => ?_, fun x hx => absurd hx (hepisode x),
      .inl fun x hx => absurd hx (hshow x)⟩
    rw [hpath hfile]
    exact hunpicked

end films

end EmeraldExchange.MediaCore
