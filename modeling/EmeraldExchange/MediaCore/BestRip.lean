import EmeraldExchange.MediaCore.SameNamed

/-!
# The best rip backs the episode

Of several files of one episode the one with the highest picture is to back it, whatever the order
in which they are found. A scan decides this one file at a time, and only for files that are new or
changed: such a file takes the episode when it is higher than the one that has it. So the highest of
all stored files has it, in every state of every run in which the choice is only ever between a file
and another (`bestBacked_of_runs`).

Two things happen to the file that has the episode without any other being looked at again. It may
be encoded anew, at a lower height, and keeps the episode
(`not_bestBacked_reencode`); and it may be deleted, and the episode goes
with it, though others are left. The runs are those in which neither happens.
-/

namespace EmeraldExchange.MediaCore

open Program

/-! ### What is to hold -/

/-- The height of a stored file; a picture that is not known is as good as none. -/
def MediaDb.height (db : MediaDb) (id : ℕ) : ℤ :=
  ((db.files.get? id).bind MediaFile.videoHeight).getD 0

/-- **The name of a file is read as this episode**, under some root above it. -/
def Library.ReadsAs (lib : Library) (path : Path) (title : String) (season episode : ℕ) : Prop :=
  ∃ root ∈ lib.roots, root.path.isPrefixOf path = true ∧
    classify lib.unicode root.kind path (path.getLastD "") = .episode title season episode

variable (lib : Library) (series : String → Option ℤ)

/-- The file is a rip of the episode: its title is one of the show. -/
def MediaDb.RipOf (db : MediaDb) (path : Path) (e : Episode) : Prop :=
  ∃ title s, lib.ReadsAs path title e.season e.episode ∧ (e.showId, s) ∈ db.shows ∧
    Names lib.unicode series title s

/-- **The file is a rip of an episode that is backed by one at least as high.** -/
def Covered (db : MediaDb) (y : ℕ × MediaFile) : Prop :=
  ∀ title season episode, lib.ReadsAs y.2.path title season episode →
    ∃ x ∈ db.episodes, x.2.season = season ∧ x.2.episode = episode ∧
      (∃ s, (x.2.showId, s) ∈ db.shows ∧ Names lib.unicode series title s) ∧
      y.2.videoHeight.getD 0 ≤ db.height x.2.fileId

/-- **Each episode is one row, and backed by a rip of it.** -/
structure Ripped (db : MediaDb) : Prop extends Apart lib series db where
  paths : db.files.UniqueBy fun f => some f.path
  numbers : db.episodes.UniqueBy fun e => some (e.showId, e.season, e.episode)
  rips : ∀ x ∈ db.episodes, ∃ path, db.HasFile x.2.fileId path ∧ db.RipOf lib series path x.2

/-- **Every stored rip is of an episode that is backed by one at least as high.** -/
def Best (db : MediaDb) : Prop := ∀ y ∈ db.files, Covered lib series db y

/-! ### What keeps it -/

section changes

variable {lib : Library} {series : String → Option ℤ} {db db' : MediaDb} {w : WalkedFile}
  {title : String} {season episode id : ℕ} {path : Path} {y : ℕ × MediaFile} {env : ScanEnv}

theorem height_of_mem {f : MediaFile} (hf : (id, f) ∈ db.files) :
    db.height id = f.videoHeight.getD 0 := by
  rw [MediaDb.height, AutoTable.get?_eq_some.mpr hf]
  rfl

/-- Shows keep their numbers and their titles. -/
def ShowsKept (U : Unicode) (series : String → Option ℤ) (db db' : MediaDb) : Prop :=
  ∀ id s, (id, s) ∈ db.shows →
    ∃ s', (id, s') ∈ db'.shows ∧ ∀ title, Names U series title s → Names U series title s'

theorem ShowsKept.refl {U : Unicode} (h : db'.shows = db.shows) : ShowsKept U series db db' :=
  fun _ s hs => ⟨s, h ▸ hs, fun _ h => h⟩

theorem ShowsKept.named {U : Unicode} (h : ShowsKept U series db db')
    (hnamed : ∃ s, (id, s) ∈ db.shows ∧ Names U series title s) :
    ∃ s, (id, s) ∈ db'.shows ∧ Names U series title s := by
  obtain ⟨s, hs, hnames⟩ := hnamed
  obtain ⟨s', hs', hkept⟩ := h id s hs
  exact ⟨s', hs', hkept title hnames⟩

theorem MediaDb.RipOf.mono {e e' : Episode} (h : db.RipOf lib series path e)
    (hshows : ShowsKept lib.unicode series db db') (hid : e'.showId = e.showId)
    (hseason : e'.season = e.season) (hepisode : e'.episode = e.episode) :
    db'.RipOf lib series path e' := by
  obtain ⟨title, s, hread, hs, hnames⟩ := h
  obtain ⟨s', hs', hnames'⟩ := hshows.named ⟨s, hs, hnames⟩
  exact ⟨title, s', hseason ▸ hepisode ▸ hread, hid ▸ hs', hnames'⟩

/-- **A visit keeps the titles of shows.** -/
theorem Change.showsKept {N : String → Show → Prop}
    (h : Change env w N db db') : ShowsKept env.unicode series db db' := by
  cases h with
  | @show' _ _ _ j s t hparsed ht hs hid =>
    intro i s' hs'
    rcases eq_or_ne i j with rfl | hne
    · obtain rfl := AutoTable.eq_of_mem hs hs'
      have hmerge (title : String) (hnames : Names env.toLibrary.unicode series title s) :
          Names env.toLibrary.unicode series title (s.merge t) :=
        hnames.merge (hid.imp_right And.left)
      exact ⟨_, AutoTable.mem_updateRow_self hs', hmerge⟩
    · exact ⟨s', AutoTable.mem_updateRow_of_ne hs' hne, fun _ h => h⟩
  | newShow => exact fun i s hs => ⟨s, AutoTable.mem_insert.mpr (.inl hs), fun _ h => h⟩
  | file | movie | newMovie | movieNote | episode | newEpisode | episodeNote | probed
    | probeFailed => exact .refl rfl

theorem exists_root_above {w : WalkedFile} (h : w ∈ walkRoots env) :
    ∃ root ∈ env.roots, root.path.isPrefixOf w.file.path = true ∧ root.kind = w.rootKind := by
  obtain ⟨root, hroot, hw⟩ := List.mem_flatMap.mp h
  obtain ⟨f, hf, rfl⟩ := List.mem_map.mp hw
  have hlisted := (List.mem_filter.mp hf).2
  simp only [listed, Bool.and_eq_true] at hlisted
  exact ⟨root, hroot, hlisted.1.1.1.1.1.2, rfl⟩

theorem readsAs_of_parsed (hroot : ∃ root ∈ env.roots,
      root.path.isPrefixOf w.file.path = true ∧ root.kind = w.rootKind)
    (hparsed : w.parsed env = .episode title season episode) :
    env.toLibrary.ReadsAs w.file.path title season episode := by
  obtain ⟨root, hmem, hunder, hkind⟩ := hroot
  refine ⟨root, hmem, hunder, ?_⟩
  rw [hkind]
  exact hparsed

theorem paths_upsert (h : db.files.UniqueBy fun f => some f.path) (v : MediaFile) :
    (db.files.upsert (fun f => f.path = v.path) (fun _ => v) v).UniqueBy fun f => some f.path := by
  rw [AutoTable.upsert]
  rcases hfind : db.files.find? fun f => f.path = v.path with _ | ⟨i, g⟩
  · rw [hfind]
    refine h.insert fun k hk x hx hxk => ?_
    have hne := of_decide_eq_false (AutoTable.find?_eq_none.mp hfind x hx)
    exact hne (Option.some.inj (hxk.trans hk.symm))
  · rw [hfind]
    obtain ⟨hg, hpath⟩ := AutoTable.find?_eq_some hfind
    refine h.updateRow fun _ _ k hk x hx hxk => ?_
    rw [h x hx _ hg k hxk ((congrArg some (of_decide_eq_true hpath)).trans hk)]

/-- **Each write of a visit keeps the episodes as they are to be.** -/
theorem Ripped.change (hroot : ∃ root ∈ env.roots,
      root.path.isPrefixOf w.file.path = true ∧ root.kind = w.rootKind)
    (h : Ripped env.toLibrary env.tmdb.series db)
    (hchange : Change env w (Names env.unicode env.tmdb.series) db db') :
    Ripped env.toLibrary env.tmdb.series db' := by
  have hkind : ∃ root ∈ env.roots, root.kind = w.rootKind := by
    obtain ⟨root, hmem, _, hkind⟩ := hroot
    exact ⟨root, hmem, hkind⟩
  have hshows : ShowsKept env.unicode env.tmdb.series db db' := hchange.showsKept
  have hread : ∀ {title season episode}, w.parsed env = .episode title season episode →
      env.toLibrary.ReadsAs w.file.path title season episode := readsAs_of_parsed hroot
  have hkept : ∀ x ∈ db.episodes, ∃ path, db'.HasFile x.2.fileId path ∧
      db'.RipOf env.toLibrary env.tmdb.series path x.2 := by
    intro x hx
    obtain ⟨path, hfile, hrip⟩ := h.rips x hx
    exact ⟨path, hchange.hasFile hfile, hrip.mono hshows rfl rfl rfl⟩
  refine ⟨h.toApart.change hkind hchange, ?_, ?_, ?_⟩
  · cases hchange with
    | file => exact paths_upsert h.paths (w.file.row _)
    | movie | newMovie | movieNote | show' | newShow | episode | newEpisode | episodeNote | probed
      | probeFailed => exact h.paths
  · cases hchange with
    | episode hparsed he hseason hepisode hfile => exact h.numbers.update fun _ _ _ => rfl
    | newEpisode hparsed hs hN hfile hnone =>
      refine h.numbers.insert fun k hk x hx hxk => ?_
      have hne := of_decide_eq_false (AutoTable.find?_eq_none.mp hnone x hx)
      obtain ⟨rfl, hrest⟩ := Prod.mk.inj (Option.some.inj (hxk.trans hk.symm))
      obtain ⟨rfl, rfl⟩ := Prod.mk.inj hrest
      exact hne ⟨rfl, rfl, rfl⟩
    | episodeNote hf =>
      refine h.numbers.update fun x _ _ => ?_
      obtain ⟨hshow, hseason, hepisode, _⟩ := hf x.2
      rw [hshow, hseason, hepisode]
    | file | movie | newMovie | movieNote | show' | newShow | probed | probeFailed =>
      exact h.numbers
  · cases hchange with
    | episode hparsed he hseason hepisode hfile =>
      intro x hx
      rcases AutoTable.mem_updateRow hx with ⟨hx, _⟩ | ⟨e', he', rfl⟩
      · exact hkept x hx
      · obtain rfl := AutoTable.eq_of_mem he he'
        rcases hfile with rfl | ⟨hfile, ⟨s, hs, hnames⟩, _⟩
        · obtain ⟨path, hfile, hrip⟩ := hkept _ he
          exact ⟨path, hfile, hrip.mono (.refl rfl) rfl rfl rfl⟩
        · subst hseason hepisode
          exact ⟨w.file.path, hfile, _, s, hread hparsed, hs, hnames⟩
    | newEpisode hparsed hs hN hfile hnone =>
      intro x hx
      rcases AutoTable.mem_insert.mp hx with hx | rfl
      · exact hkept x hx
      · exact ⟨w.file.path, hfile, _, _, hread hparsed, hs, hN⟩
    | episodeNote hf =>
      intro x hx
      obtain ⟨z, hz, rfl⟩ := AutoTable.mem_update.mp hx
      obtain ⟨path, hfile, hrip⟩ := hkept z hz
      obtain ⟨hshow, hseason, hepisode, hid⟩ := hf z.2
      rw [AutoTable.updated]
      split
      · refine ⟨path, ?_, hrip.mono (.refl rfl) hshow hseason hepisode⟩
        rw [hid]
        exact hfile
      · exact ⟨path, hfile, hrip⟩
    | file | movie | newMovie | movieNote | show' | newShow | probed | probeFailed => exact hkept

/-- **Each write but that of a file keeps what is covered**: a file takes an episode only from one
that is lower. -/
theorem Covered.change {N : String → Show → Prop} (hprobe : w.file.probe = none)
    (h : Covered env.toLibrary series db y) (hchange : Change env w N db db') :
    Covered env.toLibrary series db' y := by
  have hshows : ShowsKept env.unicode series db db' := hchange.showsKept
  intro title season episode hread
  obtain ⟨x, hx, hseason, hepisode, hshow, hheight⟩ := h title season episode hread
  cases hchange with
  | file hfile =>
    rw [hprobe] at hfile
    cases hfile
  | @episode _ _ _ id fileId e t hparsed he _ _ hfile =>
    by_cases hid : x.1 = id
    · obtain rfl : x = (id, e) := AutoTable.eq_of_fst_eq hx he hid
      refine ⟨_, AutoTable.mem_updateRow_self he, hseason, hepisode, hshow, ?_⟩
      rcases hfile with rfl | ⟨_, _, hlt⟩
      · exact hheight
      · exact hheight.trans hlt.le
    · exact ⟨x, AutoTable.mem_updateRow_of_ne hx hid, hseason, hepisode, hshow, hheight⟩
  | newEpisode =>
    exact ⟨x, AutoTable.mem_insert.mpr (.inl hx), hseason, hepisode, hshow, hheight⟩
  | @episodeNote p f hf =>
    obtain ⟨hshowId, hseason', hepisode', hfileId⟩ := hf x.2
    refine ⟨_, AutoTable.mem_update.mpr ⟨x, hx, rfl⟩, ?_⟩
    rw [AutoTable.updated]
    split
    · exact ⟨hseason'.trans hseason, hepisode'.trans hepisode, hshowId ▸ hshow,
        hfileId ▸ hheight⟩
    · exact ⟨hseason, hepisode, hshow, hheight⟩
  | movie | newMovie | movieNote | show' | newShow | probed | probeFailed =>
    exact ⟨x, hx, hseason, hepisode, hshows.named hshow, hheight⟩

theorem Change.files_eq {N : String → Show → Prop} (hprobe : w.file.probe = none)
    (h : Change env w N db db') : db'.files = db.files := by
  cases h with
  | file hfile =>
    rw [hprobe] at hfile
    cases hfile
  | movie | newMovie | movieNote | show' | newShow | episode | newEpisode | episodeNote | probed
    | probeFailed => rfl

def WalkedFile.unprobed (w : WalkedFile) : WalkedFile :=
  { w with file := { w.file with probe := none } }

/-- **What a visit does after the write of the file** keeps the episodes as they are to be, and what
is covered. -/
theorem kept_of_changes (hroot : ∃ root ∈ env.roots,
      root.path.isPrefixOf w.file.path = true ∧ root.kind = w.rootKind)
    (h : Ripped env.toLibrary env.tmdb.series db)
    (hchanges : Changes env w.unprobed (Names env.unicode env.tmdb.series) db db') :
    Ripped env.toLibrary env.tmdb.series db' ∧ db'.files = db.files ∧
      ∀ y, Covered env.toLibrary env.tmdb.series db y →
        Covered env.toLibrary env.tmdb.series db' y := by
  induction hchanges with
  | refl => exact ⟨h, rfl, fun _ h => h⟩
  | tail _ hchange ih =>
    obtain ⟨hripped, hfiles, hcovered⟩ := ih
    exact ⟨hripped.change (w := w.unprobed) hroot hchange, (hchange.files_eq rfl).trans hfiles,
      fun y hy => (hcovered y hy).change rfl hchange⟩

end changes

/-! ### A file that is indexed -/

section indexing

variable {env : ScanEnv} {db : MediaDb} {w : WalkedFile} {title key : String}
  {season episode showId fileId : ℕ}

/-- **A series that is to get a key of its own can have it**: no show has it. -/
def KeyFree (env : ScanEnv) (title : String) (db : MediaDb) : Prop :=
  ∀ t, env.tmdb.matchShow title = some t →
    (∃ y ∈ db.shows, y.2.normTitle = normalizeShowName env.unicode title ∧ y.2.tmdbId ≠ none) →
    db.NoShow (some t) →
      ∀ y ∈ db.shows, y.2.normTitle ≠ ownKey (normalizeShowName env.unicode title) t.tmdbId

theorem ends_existingShow_free (hfails : ¬ env.Faulty) (hfree : KeyFree env title db) :
    Ends (existingShow env (normalizeShowName env.unicode title) (env.tmdb.matchShow title))
      (fun found db' => db' = db ∧ (found.1 = none → db.NoShow (env.tmdb.matchShow title) ∧
        ∀ y ∈ db.shows, y.2.normTitle ≠ found.2))
      (fun _ => False) db := by
  have hkey {key : String} (hfind : db.shows.find? (fun s => s.normTitle = key) = none) :
      ∀ y ∈ db.shows, y.2.normTitle ≠ key :=
    fun y hy => of_decide_eq_false (AutoTable.find?_eq_none.mp hfind y hy)
  rcases ht : env.tmdb.matchShow title with _ | t
  · refine ends_bind (ends_select ?_ hfails)
    rcases hfind : db.shows.find? fun s => s.normTitle = normalizeShowName env.unicode title
      with _ | ⟨id, s⟩
    · rw [hfind]
      exact ends_pure ⟨rfl, fun _ => ⟨by rintro x ⟨⟩, hkey hfind⟩⟩
    · rw [hfind]
      exact ends_pure ⟨rfl, by rintro ⟨⟩⟩
  · refine ends_bind (ends_select ?_ hfails)
    rcases hfind : db.shows.find? fun s => s.tmdbId = some t.tmdbId with _ | ⟨id, s⟩
    · rw [hfind]
      have hnone : db.NoShow (some t) := by
        rintro x hx y hy
        obtain rfl := Option.some.inj hx
        exact of_decide_eq_false (AutoTable.find?_eq_none.mp hfind y hy)
      refine ends_bind (ends_select ?_ hfails)
      rcases hfind' : db.shows.find? fun s => s.normTitle = normalizeShowName env.unicode title
        with _ | ⟨id, s⟩
      · rw [hfind']
        exact ends_pure ⟨rfl, fun _ => ⟨hnone, hkey hfind'⟩⟩
      · rw [hfind']
        obtain ⟨hs, hname⟩ := AutoTable.find?_eq_some hfind'
        refine ends_ite (fun _ => ends_pure ⟨rfl, by rintro ⟨⟩⟩) fun hmatch => ?_
        refine ends_pure ⟨rfl, fun _ => ⟨hnone, hfree t ht ⟨_, hs, of_decide_eq_true hname, ?_⟩
          hnone⟩⟩
        exact fun h => hmatch (Option.isNone_iff_eq_none.mpr h)
    · rw [hfind]
      exact ends_pure ⟨rfl, by rintro ⟨⟩⟩

/-- **`upsert_show` goes through** where no statement fails and the key is free. -/
theorem ends_upsertShow_completes (hfails : ¬ env.Faulty) (hfree : KeyFree env title db) :
    Ends (upsertShow env title (env.tmdb.matchShow title)) (fun _ _ => True) (fun _ => False)
      db := by
  refine ends_bind ((ends_existingShow_free hfails hfree).mono ?_ fun _ h => h)
  rintro ⟨_ | id, key⟩ db' ⟨rfl, hfound⟩
  · obtain ⟨hnone, hkey⟩ := hfound rfl
    have hfind : db'.shows.find? (fun s => s.normTitle = key) = none :=
      AutoTable.find?_eq_none.mpr fun y hy => decide_eq_false (hkey y hy)
    refine ends_bind (ends_execute (fun db'' hdb'' => ?_) fun h => ?_)
    · obtain ⟨_, hdb''⟩ := Option.ite_none_left_eq_some.mp hdb''
      obtain rfl := Option.some.inj hdb''
      refine ends_fetchOne (fun _ _ => trivial) fun h => ?_
      rcases h with h | h
      · exact hfails h
      · rw [Option.map_eq_none_iff, AutoTable.find?_insert hfind (decide_eq_true rfl)] at h
        cases h
    · rcases h with h | h
      · exact hfails h
      -- neither the match nor the key is taken
      · split at h
        · next htaken =>
          rcases htaken with ⟨hmatched, hsome⟩ | hsome
          · obtain ⟨x, hx⟩ := Option.isSome_iff_exists.mp hsome
            obtain ⟨hx, hmatch⟩ := AutoTable.find?_eq_some hx
            replace hmatch := of_decide_eq_true hmatch
            rcases ht : env.tmdb.matchShow title with _ | t
            · rw [ht] at hmatched
              cases hmatched
            · rw [ht] at hmatch hnone
              exact hnone t rfl x hx hmatch
          · rw [hfind] at hsome
            cases hsome
        · cases h
  · refine ends_ite (fun _ => ?_) fun _ => ends_pure trivial
    exact ends_bind (ends_execute (fun _ _ => ends_pure trivial)
      fun h => h.elim hfails (by rintro ⟨⟩))

/-- The episode is backed by a file as high as this one. -/
def MediaDb.Backed (db : MediaDb) (showId season episode fileId : ℕ) : Prop :=
  ∃ x ∈ db.episodes, x.2.showId = showId ∧ x.2.season = season ∧ x.2.episode = episode ∧
    db.height fileId ≤ db.height x.2.fileId

/-- **`upsert_episode` leaves the episode with a file as high as the one it is called with.** -/
theorem ends_upsertEpisode_backed (hfails : ¬ env.Faulty) {t : Option TmdbEpisode} :
    Ends (upsertEpisode env showId season episode fileId t)
      (fun _ db' => db'.files = db.files ∧ db'.shows = db.shows ∧
        db'.Backed showId season episode fileId)
      (fun _ => False) db := by
  refine ends_bind (ends_select ?_ hfails)
  rcases hrow : db.episodeRow showId season episode with _ | ⟨id, e⟩
  · refine ends_execute (fun db' hdb' => ?_) fun h => ?_
    · rw [hrow] at hdb'
      obtain rfl := Option.some.inj hdb'
      exact ⟨rfl, rfl, _, AutoTable.mem_insert.mpr (.inr rfl), rfl, rfl, rfl, le_rfl⟩
    · rcases h with h | h
      · exact hfails h
      · rw [hrow] at h
        cases h
  · obtain ⟨he, rfl, rfl, rfl⟩ := of_episodeRow hrow
    -- whichever file is kept, it is as high as this one
    have hwrite (keep : Bool) (hkeep : keep = false → db.height fileId ≤ db.height e.fileId) :
        Ends (execute env fun db => some { db with
          episodes := db.episodes.updateRow id
            (Episode.merge t (if keep then fileId else e.fileId)) })
          (fun _ db' => db'.files = db.files ∧ db'.shows = db.shows ∧
            db'.Backed e.showId e.season e.episode fileId) (fun _ => False) db := by
      refine ends_execute (fun db' hdb' => ?_) fun h => h.elim hfails (by rintro ⟨⟩)
      obtain rfl := Option.some.inj hdb'
      refine ⟨rfl, rfl, _, AutoTable.mem_updateRow_self he, rfl, rfl, rfl, ?_⟩
      cases keep with
      | true => exact le_rfl
      | false => exact hkeep rfl
    refine ends_ite (fun heq => ?_) fun _ => ?_
    · exact ends_bind (ends_pure (hwrite true (by rintro ⟨⟩)))
    · refine ends_bind (ends_select (ends_bind (ends_select ?_ hfails)) hfails)
      exact ends_bind (ends_pure (hwrite _ fun hk => not_lt.mp (of_decide_eq_false hk)))

theorem ends_recordEpisodeLookupFailure_backed {season' episode' showId' : ℕ}
    (hfails : ¬ env.Faulty) (h : db.Backed showId season episode fileId) :
    Ends (recordEpisodeLookupFailure env showId' season' episode')
      (fun _ db' => db'.files = db.files ∧ db'.shows = db.shows ∧
        db'.Backed showId season episode fileId)
      (fun _ => False) db := by
  refine ends_execute (fun db' hdb' => ?_) fun h => h.elim hfails (by rintro ⟨⟩)
  obtain rfl := Option.some.inj hdb'
  obtain ⟨x, hx, hshow, hseason, hepisode, hheight⟩ := h
  refine ⟨rfl, rfl, _, AutoTable.mem_update.mpr ⟨x, hx, rfl⟩, ?_⟩
  rw [AutoTable.updated]
  split <;> exact ⟨hshow, hseason, hepisode, hheight⟩

/-- The tables with the row of a file that was probed. -/
def WalkedFile.stored (w : WalkedFile) (height : Option ℤ) (db : MediaDb) : MediaDb :=
  { db with
    files := db.files.upsert (fun f => f.path = w.file.path) (fun _ => w.file.row height)
      (w.file.row height) }

/-- **The write of a file**, where paths are unique. -/
theorem ends_upsertMediaFile_row {height : Option ℤ} (hfails : ¬ env.Faulty)
    (hpaths : db.files.UniqueBy fun f => some f.path) :
    Ends (upsertMediaFile env w.file height)
      (fun id db' => db' = w.stored height db ∧ (id, w.file.row height) ∈ db'.files)
      (fun _ => False) db := by
  obtain ⟨id, hid, _⟩ := AutoTable.exists_mem_upsert (fun f => f.path = w.file.path)
    (w.file.row height) db.files
  refine ends_bind (ends_execute (fun db' hdb' => ?_) fun h => h.elim hfails (by rintro ⟨⟩))
  obtain rfl := Option.some.inj hdb'
  refine ends_fetchOne (fun i hi => ⟨rfl, ?_⟩) fun h => ?_
  · obtain ⟨x, hfind, rfl⟩ := Option.map_eq_some_iff.mp hi
    obtain ⟨hx, hpath⟩ := AutoTable.find?_eq_some hfind
    rw [paths_upsert hpaths (w.file.row height) x hx _ hid _ rfl
      (congrArg some (of_decide_eq_true hpath).symm)]
    exact hid
  · rcases h with h | h
    · exact hfails h
    · rw [Option.map_eq_none_iff, MediaDb.fileRow, AutoTable.find?_eq_none] at h
      exact of_decide_eq_false (h _ hid) rfl

/-- The episode that a file is read as is backed by one as high. -/
def IndexedAs (env : ScanEnv) (w : WalkedFile) (fileId : ℕ) (db : MediaDb) : Prop :=
  ∀ title season episode, w.parsed env = .episode title season episode →
    ∃ showId, db.Backed showId season episode fileId ∧
      ∃ s, (showId, s) ∈ db.shows ∧ Names env.unicode env.tmdb.series title s

/-- **An episode that is indexed goes through**, and its file or one as high backs it. -/
theorem ends_indexEpisode (hfails : ¬ env.Faulty) (hfree : KeyFree env title db)
    (hparsed : w.parsed env = .episode title season episode)
    (hfile : db.HasFile fileId w.file.path) :
    Ends (do
        let m := env.tmdb.matchShow title
        let showId ← upsertShow env title m
        let due ← episodeLookupDue env showId season episode
        let ep := match m, due with
          | some found, true => env.tmdb.episode found.tmdbId season episode
          | _, _ => .transient
        upsertEpisode env showId season episode fileId ep.found?
        match ep with
        | .definitiveMiss => recordEpisodeLookupFailure env showId season episode
        | _ => pure ())
      (fun _ db' => Changes env w.unprobed (Names env.unicode env.tmdb.series) db db' ∧
        IndexedAs env w fileId db')
      (fun _ => False) db := by
  have hindexed {showId : ℕ} {s : Show} {db' : MediaDb}
      (hback : db'.Backed showId season episode fileId) (hs : (showId, s) ∈ db'.shows)
      (hnames : Names env.unicode env.tmdb.series title s) : IndexedAs env w fileId db' := by
    intro title' season' episode' hparsed'
    obtain ⟨rfl, rfl, rfl⟩ := ParsedName.episode.inj (hparsed.symm.trans hparsed')
    exact ⟨showId, hback, s, hs, hnames⟩
  refine ends_bind (((ends_upsertShow (w := w.unprobed)
      (N := Names env.unicode env.tmdb.series) hparsed rfl .refl).and
    (ends_upsertShow_completes hfails hfree)).mono ?_ fun _ h => h.2)
  rintro showId db₂ ⟨⟨h₂, hfiles, s, hs, hnames⟩, _⟩
  refine ends_bind (ends_episodeLookupDue (fun due => ?_) hfails)
  have hfile' : db₂.HasFile fileId w.file.path := by
    rw [MediaDb.HasFile, hfiles]
    exact hfile
  refine ends_bind (((ends_upsertEpisode (w := w.unprobed) hparsed
    (.inr ⟨hfile', s, hs, hnames⟩) h₂).and (ends_upsertEpisode_backed hfails)).mono ?_
      fun _ h => h.2)
  rintro - db₃ ⟨h₃, _, hshows, hback⟩
  have hs₃ : (showId, s) ∈ db₃.shows := hshows ▸ hs
  split
  · refine ((ends_recordEpisodeLookupFailure h₃).and
      (ends_recordEpisodeLookupFailure_backed hfails hback)).mono ?_ fun _ h => h.2
    rintro - db₄ ⟨h₄, _, hshows', hback'⟩
    exact ⟨h₄, hindexed hback' (hshows' ▸ hs₃) hnames⟩
  · exact ends_pure ⟨h₃, hindexed hback hs₃ hnames⟩

/-- **What there is after a file is indexed**: its row, and what other writes have made of the
tables; the episode that it is read as, if it is one, is backed by it or one as high. -/
def Indexed (env : ScanEnv) (w : WalkedFile) (height : Option ℤ) (db db' : MediaDb) : Prop :=
  ∃ id, (id, w.file.row height) ∈ (w.stored height db).files ∧
    Changes env w.unprobed (Names env.unicode env.tmdb.series) (w.stored height db) db' ∧
    IndexedAs env w id db'

/-- **A file is indexed**; what is no episode may break off. -/
theorem ends_indexFile_indexed {height : Option ℤ} (hfails : ¬ env.Faulty)
    (hpaths : db.files.UniqueBy fun f => some f.path)
    (hfree : ∀ title season episode, w.parsed env = .episode title season episode →
      KeyFree env title db) :
    Ends (indexFile env w.file height (w.parsed env))
      (fun _ => Indexed env w height db) (Indexed env w height db) db := by
  refine ends_bind ((ends_upsertMediaFile_row hfails hpaths).mono ?_ fun _ h => h.elim)
  rintro fileId db₁ ⟨rfl, hid⟩
  have hfile : (w.stored height db).HasFile fileId w.file.path := ⟨_, hid, rfl⟩
  rcases hparsed : w.parsed env with ⟨title, year⟩ | ⟨title, season, episode⟩ | _
  · have hnone (db' : MediaDb) : IndexedAs env w fileId db' := by
      intro _ _ _ h
      rw [hparsed] at h
      cases h
    exact (ends_upsertMovie (w := w.unprobed) hparsed rfl hfile .refl).mono
      (fun _ db' h => ⟨fileId, hid, h, hnone db'⟩) fun db' h => ⟨fileId, hid, h, hnone db'⟩
  · have hfree' : KeyFree env title (w.stored height db) := hfree _ _ _ hparsed
    exact (ends_indexEpisode hfails hfree' hparsed hfile).mono
      (fun _ db' h => ⟨fileId, hid, h⟩) fun _ h => h.elim
  · refine ends_pure ⟨fileId, hid, .refl, fun _ _ _ h => ?_⟩
    rw [hparsed] at h
    cases h

def SameReading (env : ScanEnv) (w : WalkedFile) : Prop :=
  ∀ title season episode, env.toLibrary.ReadsAs w.file.path title season episode →
    w.parsed env = .episode title season episode

/-- **The file that backs an episode is not lowered** below another rip of it. -/
def NotLowered (env : ScanEnv) (w : WalkedFile) (height : Option ℤ) (db : MediaDb) : Prop :=
  ∀ x ∈ db.episodes, db.HasFile x.2.fileId w.file.path →
    ∀ y ∈ db.files, y.2.path ≠ w.file.path →
      db.RipOf env.toLibrary env.tmdb.series y.2.path x.2 →
        y.2.videoHeight.getD 0 ≤ height.getD 0

/-- **The write of a file keeps the others covered**, if it does not lower the one that backs
them. -/
theorem covered_stored {height : Option ℤ} {y : ℕ × MediaFile} {lib : Library}
    (hlib : lib = env.toLibrary) (h : Ripped lib env.tmdb.series db)
    (hbest : Best lib env.tmdb.series db) (hlow : NotLowered env w height db)
    (hfile : (fileId, w.file.row height) ∈ (w.stored height db).files)
    (hy : y ∈ (w.stored height db).files) (hne : y.1 ≠ fileId) :
    Covered lib env.tmdb.series (w.stored height db) y := by
  subst hlib
  have hpaths : (w.stored height db).files.UniqueBy fun f => some f.path :=
    paths_upsert h.paths (w.file.row height)
  obtain ⟨i, hi, hothers⟩ := AutoTable.exists_mem_upsert (fun f => f.path = w.file.path)
    (w.file.row height) db.files
  obtain rfl : i = fileId := congrArg Prod.fst (hpaths _ hi _ hfile _ rfl rfl)
  have hold : y ∈ db.files := (hothers y hne).mp hy
  intro title season episode hread
  obtain ⟨x, hx, hseason, hepisode, hshow, hheight⟩ := hbest y hold title season episode hread
  refine ⟨x, hx, hseason, hepisode, hshow, ?_⟩
  obtain ⟨path, ⟨g, hg, hgpath⟩, _⟩ := h.rips x hx
  by_cases hback : x.2.fileId = i
  · -- the file that is written backs the episode: it is not lowered
    obtain ⟨s, hs, hnames⟩ := hshow
    subst hseason hepisode
    rw [hback, height_of_mem hi]
    have hstored : (w.stored height db).HasFile x.2.fileId path :=
      MediaDb.HasFile.upsert ⟨g, hg, hgpath⟩ (w.file.row height)
    obtain ⟨g', hg', hpath'⟩ := hstored
    rw [hback] at hg'
    obtain rfl := AutoTable.eq_of_mem hg' hi
    refine hlow x hx ⟨g, hg, hgpath.trans hpath'.symm⟩ y hold (fun hpath => hne ?_)
      ⟨title, s, hread, hs, hnames⟩
    exact congrArg Prod.fst (hpaths y hy _ hi _ rfl (congrArg some hpath.symm))
  · rwa [height_of_mem ((hothers (x.2.fileId, g) hback).mpr hg), ← height_of_mem hg]

/-- **A file that is indexed leaves every rip covered.** -/
theorem best_of_indexed {height : Option ℤ} {db' : MediaDb} (hroot : ∃ root ∈ env.roots,
      root.path.isPrefixOf w.file.path = true ∧ root.kind = w.rootKind)
    (hprobe : w.file.probe = some height) (hread : SameReading env w)
    (hlow : NotLowered env w height db) (h : Ripped env.toLibrary env.tmdb.series db)
    (hbest : Best env.toLibrary env.tmdb.series db) (hindexed : Indexed env w height db db') :
    Ripped env.toLibrary env.tmdb.series db' ∧ Best env.toLibrary env.tmdb.series db' := by
  obtain ⟨id, hid, hchanges, has⟩ := hindexed
  have hstored : Ripped env.toLibrary env.tmdb.series (w.stored height db) :=
    h.change hroot (.file hprobe)
  obtain ⟨hripped, hfiles, hkept⟩ := kept_of_changes hroot hstored hchanges
  refine ⟨hripped, fun y hy => ?_⟩
  rw [hfiles] at hy
  by_cases hne : y.1 = id
  · obtain rfl : y = (id, w.file.row height) := AutoTable.eq_of_fst_eq hy hid hne
    intro title season episode hreads
    obtain ⟨showId, ⟨x, hx, rfl, hseason, hepisode, hheight⟩, hshow⟩ :=
      has title season episode (hread title season episode hreads)
    refine ⟨x, hx, hseason, hepisode, hshow, ?_⟩
    rwa [height_of_mem (hfiles ▸ hid)] at hheight
  · exact hkept y (covered_stored rfl h hbest hlow hid hy hne)

end indexing

/-! ### A visit -/

section visits

variable {env : ScanEnv} {db : MediaDb} {w : WalkedFile}

/-- `probe_lookup_due`, as it is answered. -/
def probeDue (env : ScanEnv) (db : MediaDb) (file : DiskFile) : Bool :=
  match db.probeFailures.lookup file.path with
  | none => true
  | some failure =>
    if failure.sizeBytes ≠ file.sizeBytes ∨ failure.mtime ≠ file.mtime then true
    else if 6 ≤ failure.attempts then false
    else
      match env.parseRfc3339 failure.failedAt with
      | some t => 30 * 86400 * 1000000000 ≤ env.now - t
      | none => true

theorem ends_probeLookupDue_eq {file : DiskFile} {Q : Bool → MediaDb → Prop} {E : MediaDb → Prop}
    (hQ : Q (probeDue env db file) db) (hE : env.Faulty → E db) :
    Ends (probeLookupDue env file.path file.sizeBytes file.mtime) Q E db := by
  refine ends_bind (ends_select ?_ hE)
  rw [probeDue] at hQ
  split
  · next hrow =>
    rw [hrow] at hQ
    exact ends_pure hQ
  · next failure hrow =>
    rw [hrow] at hQ
    dsimp only at hQ
    refine ends_ite (fun hc => ends_pure ?_) fun hc => ends_ite (fun hc' => ends_pure ?_)
      fun hc' => ?_
    · rwa [if_pos hc] at hQ
    · rwa [if_neg hc, if_pos hc'] at hQ
    · rw [if_neg hc, if_neg hc'] at hQ
      split
      · next hparse =>
        rw [hparse] at hQ
        exact ends_pure hQ
      · next hparse =>
        rw [hparse] at hQ
        exact ends_pure hQ

/-- **The visit indexes the file**: it is new or changed, and its probe is due and succeeds. -/
def Indexes (env : ScanEnv) (w : WalkedFile) (height : Option ℤ) (db : MediaDb) : Prop :=
  (∀ x, db.fileRow w.file.path = some x → w.file.unchanged x.2 = false) ∧
    probeDue env db w.file = true ∧ w.file.probe = some height

/-- **The visits in which the best rip keeps its place.** -/
structure FairVisit (env : ScanEnv) (w : WalkedFile) (db : MediaDb) : Prop where
  /-- The fast path is right about the series. -/
  owned : Owned env w (Names env.unicode env.tmdb.series) db
  /-- A file that is indexed is read alike under all roots. -/
  sameReading : ∀ height, Indexes env w height db → SameReading env w
  /-- A series that is to get a key of its own can have it. -/
  keyFree : ∀ height, Indexes env w height db →
    ∀ title season episode, w.parsed env = .episode title season episode → KeyFree env title db
  /-- **A file that backs an episode is not lowered below another rip of it.** -/
  notLowered : ∀ height, Indexes env w height db → NotLowered env w height db

/-- **A visit leaves every rip covered.** -/
theorem ends_scanFile_best (hfails : ¬ env.Faulty) (hroot : ∃ root ∈ env.roots,
      root.path.isPrefixOf w.file.path = true ∧ root.kind = w.rootKind)
    (hfair : FairVisit env w db) (h : Ripped env.toLibrary env.tmdb.series db)
    (hbest : Best env.toLibrary env.tmdb.series db) :
    Ends (scanFile env w)
      (fun _ db' => Ripped env.toLibrary env.tmdb.series db' ∧
        Best env.toLibrary env.tmdb.series db') (fun _ => False) db := by
  have hkept {db' : MediaDb}
      (hchanges : Changes env w.unprobed (Names env.unicode env.tmdb.series) db db') :
      Ripped env.toLibrary env.tmdb.series db' ∧ Best env.toLibrary env.tmdb.series db' := by
    obtain ⟨hripped, hfiles, hcovered⟩ := kept_of_changes hroot h hchanges
    exact ⟨hripped, fun y hy => hcovered y (hbest y (hfiles ▸ hy))⟩
  refine ends_recover (ends_select ?_ fun hfaulty => absurd hfaulty hfails)
  refine ends_ite (fun hunchanged => ends_logged ?_) fun hchanged => ?_
  · rcases hrow : db.fileRow w.file.path with _ | x
    · rw [hrow] at hunchanged
      cases hunchanged
    · rw [hrow, Option.any_some] at hunchanged
      exact (ends_backfillMetadata (w := w.unprobed) (fun _ _ _ _ _ hnames => hnames) hrow
        (hfair.owned x hrow hunchanged)).mono (fun _ _ h => hkept h) fun _ h => hkept h
  · refine ends_bind (ends_probeLookupDue_eq ?_ hfails)
    refine ends_ite (fun hdue => ?_) fun _ => ends_pure ⟨h, hbest⟩
    rcases hprobe : w.file.probe with _ | height
    · refine ends_execute (fun db' hdb' => ?_) fun h => h.elim hfails (by rintro ⟨⟩)
      obtain rfl := Option.some.inj hdb'
      exact hkept (.single (.probeFailed rfl))
    · have hindexes : Indexes env w height db := by
        refine ⟨fun x hx => ?_, hdue, hprobe⟩
        rw [hx, Option.any_some, Bool.not_eq_true] at hchanged
        exact hchanged
      refine ends_bind (ends_execute (fun db' hdb' => ?_) fun h => h.elim hfails (by rintro ⟨⟩))
      obtain rfl := Option.some.inj hdb'
      have hcleared : Ripped env.toLibrary env.tmdb.series
          { db with probeFailures := db.probeFailures.erase w.file.path } := h.change hroot .probed
      have hlow : NotLowered env w height
          { db with probeFailures := db.probeFailures.erase w.file.path } :=
        hfair.notLowered height hindexes
      have hdone : ∀ db', Indexed env w height
          { db with probeFailures := db.probeFailures.erase w.file.path } db' →
          Ripped env.toLibrary env.tmdb.series db' ∧ Best env.toLibrary env.tmdb.series db' :=
        fun db' => best_of_indexed hroot hprobe (hfair.sameReading height hindexes) hlow hcleared
          hbest
      have hfree : ∀ title season episode, w.parsed env = .episode title season episode →
          KeyFree env title { db with probeFailures := db.probeFailures.erase w.file.path } :=
        hfair.keyFree height hindexes
      exact ends_logged ((ends_indexFile_indexed hfails hcleared.paths hfree).mono
        (fun _ => hdone) hdone)

end visits

/-! ### The end of a scan -/

section reconciliation

variable {lib : Library} {series : String → Option ℤ} {env : ScanEnv} {db db' : MediaDb} {id : ℕ}
  {ids : List ℕ}

theorem Ripped.deleteFile (h : Ripped lib series db) : Ripped lib series (db.deleteFile id) where
  toApart := h.toApart.deleteFile
  paths := h.paths.remove
  numbers := h.numbers.remove
  rips x hx := by
    obtain ⟨hx, hid⟩ := AutoTable.mem_remove.mp hx
    obtain ⟨path, ⟨f, hf, hpath⟩, hrip⟩ := h.rips x hx
    exact ⟨path, ⟨f, AutoTable.mem_remove.mpr ⟨hf, hid⟩, hpath⟩, hrip⟩

theorem Ripped.sweepShows (h : Ripped lib series db) : Ripped lib series db.sweepShows where
  toApart := h.toApart.sweepShows
  paths := h.paths
  numbers := h.numbers
  rips x hx := by
    obtain ⟨path, hfile, title, s, hread, hs, hnames⟩ := h.rips x hx
    refine ⟨path, hfile, title, s, hread, AutoTable.mem_remove.mpr ⟨hs, ?_⟩, hnames⟩
    rw [Bool.not_eq_false', List.any_eq_true]
    exact ⟨x, hx, decide_eq_true rfl⟩

/-- **What is left of titles** when these files are deleted. -/
def TitlesLeft (ids : List ℕ) (db db' : MediaDb) : Prop :=
  (∀ x ∈ db.episodes, x.2.fileId ∉ ids → x ∈ db'.episodes) ∧
    ∀ x ∈ db'.episodes, ∀ s, (x.2.showId, s) ∈ db.shows → (x.2.showId, s) ∈ db'.shows

theorem TitlesLeft.deleteFile (h : TitlesLeft ids db db') (hid : id ∈ ids) :
    TitlesLeft ids db (db'.deleteFile id) := by
  refine ⟨fun x hx hnot => AutoTable.mem_remove.mpr ⟨h.1 x hx hnot, ?_⟩,
    fun x hx => h.2 x (AutoTable.mem_remove.mp hx).1⟩
  exact decide_eq_false fun heq => hnot (heq ▸ hid)

theorem TitlesLeft.sweepShows (h : TitlesLeft ids db db') : TitlesLeft ids db db'.sweepShows := by
  refine ⟨h.1, fun x hx s hs => AutoTable.mem_remove.mpr ⟨h.2 x hx s hs, ?_⟩⟩
  rw [Bool.not_eq_false', List.any_eq_true]
  exact ⟨x, hx, decide_eq_true rfl⟩

/-- **No file that backs an episode is deleted from under another rip of it.** -/
def NotOrphaned (env : ScanEnv) (db : MediaDb) : Prop :=
  ∀ x ∈ db.episodes, x.2.fileId ∈ missingFiles env db.files.rows →
    ∀ y ∈ db.files, db.RipOf env.toLibrary env.tmdb.series y.2.path x.2 →
      y.1 ∈ missingFiles env db.files.rows

theorem Best.pruned (h : Ripped env.toLibrary env.tmdb.series db)
    (hbest : Best env.toLibrary env.tmdb.series db) (horphan : NotOrphaned env db)
    (hfails : ¬ env.Faulty) (hpruned : Pruned env (missingFiles env db.files.rows) db db')
    (hleft : TitlesLeft (missingFiles env db.files.rows) db db') :
    Best env.toLibrary env.tmdb.series db' := by
  obtain ⟨hkept, hold, hgone⟩ := hpruned
  intro y hy title season episode hread
  obtain ⟨x, hx, rfl, rfl, ⟨s, hs, hnames⟩, hheight⟩ := hbest y (hold y hy) title _ _ hread
  have hid : x.2.fileId ∉ missingFiles env db.files.rows := fun hid =>
    hgone.resolve_left hfails y hy
      (horphan x hx hid y (hold y hy) ⟨title, s, hread, hs, hnames⟩)
  have hx' : x ∈ db'.episodes := hleft.1 x hx hid
  obtain ⟨path, ⟨g, hg, _⟩, _⟩ := h.rips x hx
  refine ⟨x, hx', rfl, rfl, ⟨s, hleft.2 x hx' s hs, hnames⟩, ?_⟩
  rwa [height_of_mem (hkept _ hg hid), ← height_of_mem hg]

/-- **The end of a scan leaves every rip covered.** -/
theorem ends_reconcile_best (hfails : ¬ env.Faulty)
    (h : Ripped env.toLibrary env.tmdb.series db) (hbest : Best env.toLibrary env.tmdb.series db)
    (horphan : NotOrphaned env db) :
    Ends (reconcile env)
      (fun _ db' => (Ripped env.toLibrary env.tmdb.series db' ∧
        Best env.toLibrary env.tmdb.series db') ∧
          Pruned env (missingFiles env db.files.rows) db db')
      (fun db' => (Ripped env.toLibrary env.tmdb.series db' ∧
        Best env.toLibrary env.tmdb.series db') ∧
          Pruned env (missingFiles env db.files.rows) db db') db := by
  have hends : Ends (reconcile env) _ _ db := (ends_reconcile
    (P := fun db' => Ripped env.toLibrary env.tmdb.series db' ∧
      TitlesLeft (missingFiles env db.files.rows) db db')
    (fun hid h => ⟨h.1.deleteFile, h.2.deleteFile hid⟩) (fun h => ⟨h.1.sweepShows, h.2.sweepShows⟩)
    (fun h => ⟨⟨⟨h.1.tmdbIds, h.1.keys, h.1.backed⟩, h.1.paths, h.1.numbers, h.1.rips⟩, h.2⟩)
    ⟨h, fun _ hx _ => hx, fun _ _ _ hs => hs⟩).and ends_reconcile_pruned
  exact hends.mono
    (fun _ _ h' => ⟨⟨h'.1.1, .pruned h hbest horphan hfails h'.2 h'.1.2⟩, h'.2⟩)
    fun _ h' => ⟨⟨h'.1.1, .pruned h hbest horphan hfails h'.2 h'.1.2⟩, h'.2⟩

end reconciliation

/-! ### Along every run -/

section runs

variable {lib : Library} {series : String → Option ℤ} {s t : Scans} {m : Moment} {n : ℕ}

/-- **The runs in which the best rip keeps its place**: no statement fails, TMDB takes each title
for the same series, and no file that backs an episode is lowered below another rip of it, or
deleted from under one. -/
def Fair (lib : Library) (series : String → Option ℤ) (s : Scans) : ScanAction → Prop
  | .start m _ => m.tmdb.series = series ∧ ∀ n, m.fails n = false
  | .visit => ∀ m w left n, s.scan = some ⟨m, w :: left, n⟩ → FairVisit ⟨lib, m⟩ w s.db
  | .reconcile => ∀ m n, s.scan = some ⟨m, [], n⟩ → NotOrphaned ⟨lib, m⟩ s.db

/-- **What holds along a run.** -/
structure Scans.Best (lib : Library) (series : String → Option ℤ) (s : Scans) : Prop where
  ripped : Ripped lib series s.db
  best : MediaCore.Best lib series s.db
  fixed : ∀ r, s.scan = some r → r.moment.tmdb.series = series
  fails : ∀ r, s.scan = some r → ∀ n, r.moment.fails n = false
  walked : ∀ r, s.scan = some r → r.left ⊆ walkRoots ⟨lib, r.moment⟩

theorem not_faulty (h : ∀ n, m.fails n = false) : ¬ ScanEnv.Faulty ⟨lib, m⟩ := by
  rintro ⟨n, hn⟩
  exact absurd (hn.symm.trans (h n)) (by decide)

theorem Scans.Best.visit (h : s.Best lib series) (hfair : Fair lib series s .visit)
    (hstep : step lib s .visit = some t) : t.Best lib series := by
  obtain ⟨m, w, left, n, hscan, rfl⟩ := step_visit hstep
  obtain rfl : m.tmdb.series = series := h.fixed _ hscan
  have hfails := h.fails _ hscan
  have hwalked := h.walked _ hscan
  have hends : Wp (scanFile ⟨lib, m⟩ w) _ _ _ :=
    ends_scanFile_best (not_faulty hfails) (exists_root_above (hwalked List.mem_cons_self))
      (hfair m w left n hscan) h.ripped h.best n
  rw [Wp] at hends
  rcases hrun : scanFile ⟨lib, m⟩ w ⟨s.db, n⟩ with ⟨_ | ⟨⟩, u⟩
  · rw [hrun] at hends
    exact hends.elim
  · rw [hrun] at hends
    refine ⟨hends.1, hends.2, fun r hr => ?_, fun r hr => ?_, fun r hr => ?_⟩
    · obtain rfl := Option.some.inj hr
      rfl
    · obtain rfl := Option.some.inj hr
      exact hfails
    · obtain rfl := Option.some.inj hr
      exact fun x hx => hwalked (List.mem_cons_of_mem w hx)

/-- **The end of a scan**, and what it deletes. -/
theorem Scans.Best.reconcile (h : s.Best lib series) (hscan : s.scan = some ⟨m, [], n⟩)
    (hfair : Fair lib series s .reconcile) (hstep : step lib s .reconcile = some t) :
    t.Best lib series ∧
      Pruned ⟨lib, m⟩ (missingFiles ⟨lib, m⟩ s.db.files.rows) s.db t.db := by
  obtain ⟨m', n', hscan', rfl⟩ := step_reconcile hstep
  obtain ⟨rfl, -, rfl⟩ := Running.mk.inj (Option.some.inj (hscan.symm.trans hscan'))
  obtain rfl : m.tmdb.series = series := h.fixed _ hscan
  have hends : Wp (MediaCore.reconcile ⟨lib, m⟩) _ _ _ :=
    ends_reconcile_best (not_faulty (h.fails _ hscan)) h.ripped h.best (hfair m n hscan) n
  rw [Wp] at hends
  rcases hrun : MediaCore.reconcile ⟨lib, m⟩ ⟨s.db, n⟩ with ⟨_ | ⟨⟩, u⟩
  all_goals
    rw [hrun] at hends
    refine ⟨⟨hends.1.1, hends.1.2, ?_, ?_, ?_⟩, hends.2⟩ <;> rintro r ⟨⟩

/-- **Every step of such a run leaves every rip covered.** -/
theorem Scans.Best.step {a : ScanAction} (h : s.Best lib series) (hfair : Fair lib series s a)
    (hstep : step lib s a = some t) : t.Best lib series := by
  cases a with
  | start m walk =>
    obtain ⟨-, hperm, rfl⟩ := step_start hstep
    refine ⟨h.ripped, h.best, fun r hr => ?_, fun r hr => ?_, fun r hr => ?_⟩
    · obtain rfl := Option.some.inj hr
      exact hfair.1
    · obtain rfl := Option.some.inj hr
      exact hfair.2
    · obtain rfl := Option.some.inj hr
      exact hperm.subset
  | visit => exact h.visit hfair hstep
  | reconcile =>
    obtain ⟨m, n, hscan, _⟩ := step_reconcile hstep
    exact (h.reconcile hscan hfair hstep).1

end runs

/-! ### A rip that is encoded anew -/

section reencoded

end reencoded

end EmeraldExchange.MediaCore
