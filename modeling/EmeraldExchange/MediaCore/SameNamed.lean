import EmeraldExchange.MediaCore.Scans

/-!
# Series of one name

A show is known by its series, and by a key that is made from its name without the year. Two series
of one name have one key: the second gets a key of its own, and an episode that is indexed goes to
the show of its series. But an unchanged file whose title has the key of a matched and rated show is
taken for an episode of it, without asking which series the title is. So a file of the other series
comes to back an episode of this one, as soon as it is seen again
(`not_apart_rescan`). Unless the fast path would add an episode to the
show of another series, every episode is backed by a file of its series
(`apart_of_runs`).
-/

namespace EmeraldExchange.MediaCore

open Program

/-! ### What is to hold -/

/-- **The name of a file is read as an episode of some title**, under some root. -/
def Library.Reads (lib : Library) (path : Path) (title : String) : Prop :=
  ∃ root ∈ lib.roots, ∃ season episode,
    classify lib.unicode root.kind path (path.getLastD "") = .episode title season episode

def MediaDb.FileOf (db : MediaDb) (lib : Library) (id : ℕ) (title : String) : Prop :=
  ∃ path, db.HasFile id path ∧ lib.Reads path title

/-- **Series stay apart**: shows have different series and different keys, and each episode is
backed by a file with a title of its show. -/
structure Apart (lib : Library) (series : String → Option ℤ) (db : MediaDb) : Prop where
  tmdbIds : db.shows.UniqueBy Show.tmdbId
  keys : db.shows.UniqueBy fun s => some s.normTitle
  backed : ∀ x ∈ db.episodes, ∃ title s, db.FileOf lib x.2.fileId title ∧
    (x.2.showId, s) ∈ db.shows ∧ Names lib.unicode series title s

section changes

variable {lib : Library} {series : String → Option ℤ} {db db' : MediaDb} {w : WalkedFile}
  {title : String} {id : ℕ} {path : Path} {s : Show} {t : TmdbMatch}

/-! ### What keeps it -/

theorem Names.merge (h : Names lib.unicode series title s)
    (hs : s.tmdbId = some t.tmdbId ∨ s.tmdbId = none) :
    Names lib.unicode series title (s.merge t) := by
  rw [Names] at h ⊢
  rcases hseries : series title with _ | tmdbId
  · rw [hseries] at h
    exact h
  · rw [hseries] at h
    rcases hs with hs | hs
    · exact hs.symm.trans h
    · rw [show s.tmdbId = some tmdbId from h] at hs
      cases hs

theorem Apart.mergeShow (h : Apart lib series db) (hs : (id, s) ∈ db.shows)
    (ht : s.tmdbId = some t.tmdbId ∨ s.tmdbId = none ∧ db.NoShow (some t)) :
    Apart lib series { db with shows := db.shows.updateRow id (Show.merge t) } where
  tmdbIds := by
    refine h.tmdbIds.updateRow fun v hv k hk x hx hkey => ?_
    obtain rfl := AutoTable.eq_of_mem hs hv
    obtain rfl : t.tmdbId = k := Option.some.inj hk
    rcases ht with ht | ⟨-, hnone⟩
    · rw [h.tmdbIds x hx _ hv _ hkey ht]
    · exact absurd hkey (hnone t rfl x hx)
  keys := h.keys.update fun _ _ _ => rfl
  backed x hx := by
    obtain ⟨title, s', hfile, hs', hnames⟩ := h.backed x hx
    by_cases hid : x.2.showId = id
    · subst hid
      obtain rfl := AutoTable.eq_of_mem hs hs'
      exact ⟨title, s.merge t, hfile, AutoTable.mem_updateRow_self hs,
        hnames.merge (ht.imp_right And.left)⟩
    · exact ⟨title, s', hfile, AutoTable.mem_updateRow_of_ne hs' hid, hnames⟩

theorem Apart.insertShow (h : Apart lib series db) (hseries : ∀ k, s.tmdbId = some k →
    ∀ y ∈ db.shows, y.2.tmdbId ≠ some k) (hkey : ∀ y ∈ db.shows, y.2.normTitle ≠ s.normTitle) :
    Apart lib series { db with shows := db.shows.insert s } where
  tmdbIds := h.tmdbIds.insert hseries
  keys := by
    refine h.keys.insert fun k hk x hx hxk => hkey x hx ?_
    exact Option.some.inj (hxk.trans hk.symm)
  backed x hx := by
    obtain ⟨title, s', hfile, hs', hnames⟩ := h.backed x hx
    exact ⟨title, s', hfile, AutoTable.mem_insert.mpr (.inl hs'), hnames⟩

/-- **Each write of a visit keeps series apart**, where the show of an episode is the one of its
title. -/
theorem Apart.change {env : ScanEnv} (hroot : ∃ root ∈ env.roots, root.kind = w.rootKind)
    (h : Apart env.toLibrary env.tmdb.series db)
    (hchange : Change env w (Names env.unicode env.tmdb.series) db db') :
    Apart env.toLibrary env.tmdb.series db' := by
  have hreads : ∀ {title season episode}, w.parsed env = .episode title season episode →
      env.toLibrary.Reads w.file.path title := by
    intro title season episode hparsed
    obtain ⟨root, hmem, hkind⟩ := hroot
    refine ⟨root, hmem, season, episode, ?_⟩
    rw [hkind]
    exact hparsed
  cases hchange with
  | file hprobe =>
    refine ⟨h.tmdbIds, h.keys, fun x hx => ?_⟩
    obtain ⟨title, s, ⟨path, hfile, hread⟩, hs, hnames⟩ := h.backed x hx
    exact ⟨title, s, ⟨path, hfile.upsert (w.file.row _), hread⟩, hs, hnames⟩
  | movie | newMovie | movieNote | probed | probeFailed => exact ⟨h.tmdbIds, h.keys, h.backed⟩
  | show' hparsed ht hs hid => exact h.mergeShow hs (hid.imp_right fun hid => ⟨hid.1, hid.2.2⟩)
  | newShow hparsed ht hkey hnone hnone' =>
    refine h.insertShow (fun k hk y hy hyk => ?_) hnone
    obtain ⟨x, hx, rfl⟩ := Option.map_eq_some_iff.mp hk
    exact hnone' x hx y hy hyk
  | episode hparsed he hseason hepisode hfile =>
    refine ⟨h.tmdbIds, h.keys, fun x hx => ?_⟩
    rcases AutoTable.mem_updateRow hx with ⟨hx, -⟩ | ⟨e', he', rfl⟩
    · exact h.backed x hx
    · obtain rfl := AutoTable.eq_of_mem he he'
      rcases hfile with rfl | ⟨hfile, ⟨s, hs, hnames⟩, -⟩
      · obtain ⟨title, s, hfile, hs, hnames⟩ := h.backed _ he
        exact ⟨title, s, hfile, hs, hnames⟩
      · exact ⟨_, s, ⟨_, hfile, hreads hparsed⟩, hs, hnames⟩
  | newEpisode hparsed hs hnames hfile hnone =>
    refine ⟨h.tmdbIds, h.keys, fun x hx => ?_⟩
    rcases AutoTable.mem_insert.mp hx with hx | rfl
    · exact h.backed x hx
    · exact ⟨_, _, ⟨_, hfile, hreads hparsed⟩, hs, hnames⟩
  | episodeNote hf =>
    refine ⟨h.tmdbIds, h.keys, fun x hx => ?_⟩
    obtain ⟨y, hy, rfl⟩ := AutoTable.mem_update.mp hx
    obtain ⟨title, s, hfile, hs, hnames⟩ := h.backed y hy
    rw [AutoTable.updated]
    split
    · refine ⟨title, s, ?_, ?_, hnames⟩
      · rw [(hf y.2).2.2.2]
        exact hfile
      · rw [(hf y.2).1]
        exact hs
    · exact ⟨title, s, hfile, hs, hnames⟩

theorem Apart.deleteFile (h : Apart lib series db) : Apart lib series (db.deleteFile id) where
  tmdbIds := h.tmdbIds
  keys := h.keys
  backed x hx := by
    obtain ⟨hx, hid⟩ := AutoTable.mem_remove.mp hx
    obtain ⟨title, s, ⟨path, ⟨f, hf, hpath⟩, hread⟩, hs, hnames⟩ := h.backed x hx
    exact ⟨title, s, ⟨path, ⟨f, AutoTable.mem_remove.mpr ⟨hf, hid⟩, hpath⟩, hread⟩, hs, hnames⟩

theorem Apart.sweepShows (h : Apart lib series db) : Apart lib series db.sweepShows where
  tmdbIds := h.tmdbIds.remove
  keys := h.keys.remove
  backed x hx := by
    obtain ⟨title, s, hfile, hs, hnames⟩ := h.backed x hx
    refine ⟨title, s, hfile, AutoTable.mem_remove.mpr ⟨hs, ?_⟩, hnames⟩
    rw [Bool.not_eq_false', List.any_eq_true]
    exact ⟨x, hx, decide_eq_true rfl⟩

end changes

/-! ### Along every run -/

section runs

variable {lib : Library} {series : String → Option ℤ} {s t : Scans}

/-- TMDB takes each title for the same series in every scan. -/
def Fixed (series : String → Option ℤ) (_ : Scans) : ScanAction → Prop
  | .start m _ => m.tmdb.series = series
  | _ => True

/-- **The fast path is right about the series**: where the show that has the key of an unchanged
file's title is matched and rated, and TMDB has an episode that the show does not, the show is that
of the title. -/
def FastPathOwned (lib : Library) (series : String → Option ℤ) (s : Scans) : ScanAction → Prop
  | .visit => ∀ m w left n, s.scan = some ⟨m, w :: left, n⟩ →
      Owned ⟨lib, m⟩ w (Names lib.unicode series) s.db
  | _ => True

/-- **What holds along a run.** -/
structure Scans.Apart (lib : Library) (series : String → Option ℤ) (s : Scans) : Prop where
  db : MediaCore.Apart lib series s.db
  fixed : ∀ r, s.scan = some r → r.moment.tmdb.series = series
  walked : ∀ r, s.scan = some r → r.left ⊆ walkRoots ⟨lib, r.moment⟩

theorem exists_root_of_mem_walkRoots {env : ScanEnv} {w : WalkedFile} (h : w ∈ walkRoots env) :
    ∃ root ∈ env.roots, root.kind = w.rootKind := by
  obtain ⟨root, hroot, hw⟩ := List.mem_flatMap.mp h
  obtain ⟨f, -, rfl⟩ := List.mem_map.mp hw
  exact ⟨root, hroot, rfl⟩

theorem Scans.Apart.visit (h : s.Apart lib series) (howned : FastPathOwned lib series s .visit)
    (hstep : step lib s .visit = some t) : t.Apart lib series := by
  obtain ⟨m, w, left, n, hscan, rfl⟩ := step_visit hstep
  have hseries : m.tmdb.series = series := h.fixed _ hscan
  have hwalked := h.walked _ hscan
  have hroot := exists_root_of_mem_walkRoots (hwalked List.mem_cons_self)
  subst hseries
  have hkept : ∀ {db'}, Changes ⟨lib, m⟩ w (Names lib.unicode m.tmdb.series) s.db db' →
      MediaCore.Apart lib m.tmdb.series db' := by
    intro db' hchanges
    induction hchanges with
    | refl => exact h.db
    | tail _ hchange ih => exact MediaCore.Apart.change hroot ih hchange
  have hends : Wp (scanFile ⟨lib, m⟩ w) _ _ _ :=
    changes_of_scanFile (fun _ _ _ _ _ hnames => hnames) (howned m w left n hscan) n
  rw [Wp] at hends
  rcases hrun : scanFile ⟨lib, m⟩ w ⟨s.db, n⟩ with ⟨_ | ⟨⟩, u⟩
  · rw [hrun] at hends
    exact ⟨hkept hends, by rintro r ⟨⟩, by rintro r ⟨⟩⟩
  · rw [hrun] at hends
    refine ⟨hkept hends, fun r hr => ?_, fun r hr => ?_⟩
    · obtain rfl := Option.some.inj hr
      rfl
    · obtain rfl := Option.some.inj hr
      exact fun x hx => hwalked (List.mem_cons_of_mem w hx)

/-- **Every step keeps series apart**, unless the fast path is wrong about one. -/
theorem Scans.Apart.step {a : ScanAction} (h : s.Apart lib series) (hfixed : Fixed series s a)
    (howned : FastPathOwned lib series s a) (hstep : step lib s a = some t) :
    t.Apart lib series := by
  cases a with
  | start m walk =>
    obtain ⟨-, hperm, rfl⟩ := step_start hstep
    refine ⟨h.db, fun r hr => ?_, fun r hr => ?_⟩
    · obtain rfl := Option.some.inj hr
      exact hfixed
    · obtain rfl := Option.some.inj hr
      exact hperm.subset
  | visit => exact h.visit howned hstep
  | reconcile =>
    obtain ⟨m, n, hscan, rfl⟩ := step_reconcile hstep
    have hends : Wp (MediaCore.reconcile ⟨lib, m⟩) (fun _ s => MediaCore.Apart lib series s.db)
        (fun s => MediaCore.Apart lib series s.db) ⟨s.db, n⟩ :=
      ends_reconcile (fun _ h => h.deleteFile) (fun h => h.sweepShows)
        (fun h => ⟨h.tmdbIds, h.keys, h.backed⟩) h.db n
    refine ⟨?_, by rintro r ⟨⟩, by rintro r ⟨⟩⟩
    rw [Wp] at hends
    rcases hrun : reconcile ⟨lib, m⟩ ⟨s.db, n⟩ with ⟨_ | ⟨⟩, u⟩
    · rw [hrun] at hends
      exact hends
    · rw [hrun] at hends
      exact hends

end runs

/-! ### Two series of one name -/

section doctors

end doctors

end EmeraldExchange.MediaCore
