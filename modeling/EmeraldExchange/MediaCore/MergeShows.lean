import EmeraldExchange.Lib.KeyedRows
import Mathlib.Algebra.Order.Ring.Int

/-!
# The migration that merges shows

`0002_media_metadata.sql` of `crates/media-core/migrations` gives every show a `norm_title`, points
the episodes of the shows with one `norm_title` to the one of lowest id, deletes the others and
makes `norm_title` unique. It is one transaction: where a statement fails nothing of it stays, and
the service does not start.

What it means to do is that one series is one row, and that no episode is lost over it. The
repointing runs into the constraint that a show has one row for a season and an episode: where two
shows of one `norm_title` both have the episode the statement fails. So the migration goes through,
and does all it means to do, exactly when no two rows are the same episode of one series
(`mediaMetadata_collapses`).
-/

namespace EmeraldExchange.MediaCore.MergeShows

/-! ### Functions on texts -/

abbrev Text := List Char

/-- `LOWER`: the letters of ASCII. -/
def lower (t : Text) : Text := t.map Char.toLower

/-- `TRIM`: blanks, and no other space. -/
def trim (t : Text) : Text :=
  ((t.dropWhile (· == ' ')).reverse.dropWhile (· == ' ')).reverse

/-- The text with `old` replaced by `new`, from the left, after so many characters that are part of
one that has been replaced. -/
def replaceFrom (old new : Text) : ℕ → Text → Text
  | _, [] => []
  | k + 1, _ :: t => replaceFrom old new k t
  | 0, c :: t =>
    if old.isPrefixOf (c :: t) then new ++ replaceFrom old new (old.length - 1) t
    else c :: replaceFrom old new 0 t

/-- `REPLACE(t, old, new)`, of an `old` that is not empty. -/
def replace (t old new : Text) : Text := replaceFrom old new 0 t

/-- What `LENGTH` and `SUBSTR` see of a text: what is before its first NUL. -/
def beforeNul (t : Text) : Text := t.takeWhile (· != Char.ofNat 0)

/-- `LENGTH` -/
def length (t : Text) : ℕ := (beforeNul t).length

/-- `SUBSTR(t, p, n)`, of a `p` from one on. -/
def substr (t : Text) (p n : ℕ) : Text := ((beforeNul t).drop (p - 1)).take n

/-- `t BETWEEN '0' AND '9'`, of a text of one character at most. -/
def isDigit : Text → Bool
  | [c] => '0' ≤ c && c ≤ '9'
  | _ => false

/-! ### The tables -/

/-- A row of `media_files`. -/
structure MediaFileRow where
  id : ℤ
  path : Text
  sizeBytes : ℤ
  mtime : Text
  container : Option Text
  durationSecs : Option ℤ
  videoCodec : Option Text
  videoHeight : Option ℤ
  videoProfile : Option Text
  hdrFormat : Option Text
  audioTracksJson : Text
  subtitleTracksJson : Text
  scannedAt : Text
  deriving DecidableEq

/-- A row of `movies`. -/
structure MovieRow where
  id : ℤ
  tmdbId : Option ℤ
  imdbId : Option Text
  title : Text
  year : Option ℤ
  addedAt : Text
  fileId : ℤ
  deriving DecidableEq

/-- A row of `shows`. -/
structure ShowRow where
  id : ℤ
  tmdbId : Option ℤ
  tvdbId : Option ℤ
  title : Text
  year : Option ℤ
  addedAt : Text
  deriving DecidableEq

/-- A row of `episodes`. -/
structure EpisodeRow where
  id : ℤ
  showId : ℤ
  season : ℤ
  episode : ℤ
  title : Option Text
  airDate : Option Text
  fileId : ℤ
  deriving DecidableEq

/-- What is unique in `episodes`. -/
def EpisodeRow.key (e : EpisodeRow) : ℤ × ℤ × ℤ := (e.showId, e.season, e.episode)

/-- The tables of `0001_init.sql` that this is about. -/
structure Tables where
  mediaFiles : List MediaFileRow
  movies : List MovieRow
  shows : List ShowRow
  episodes : List EpisodeRow

/-- **A database that meets the constraints of `0001_init.sql`.** The rows of a table are in any
order: an update comes to them in the order in which they are here. -/
structure Db extends Tables where
  mediaFiles_id : (mediaFiles.map (·.id)).Nodup
  mediaFiles_path : (mediaFiles.map (·.path)).Nodup
  movies_id : (movies.map (·.id)).Nodup
  movies_tmdbId : (movies.filterMap (·.tmdbId)).Nodup
  movies_fileId : ∀ m ∈ movies, ∃ f ∈ mediaFiles, f.id = m.fileId
  shows_id : (shows.map (·.id)).Nodup
  shows_tmdbId : (shows.filterMap (·.tmdbId)).Nodup
  episodes_id : (episodes.map (·.id)).Nodup
  episodes_key : (episodes.map EpisodeRow.key).Nodup
  episodes_showId : ∀ e ∈ episodes, ∃ s ∈ shows, s.id = e.showId
  episodes_fileId : ∀ e ∈ episodes, ∃ f ∈ mediaFiles, f.id = e.fileId

/-- A row of `movies` with the new columns. -/
structure MovieRow2 extends MovieRow where
  overview : Option Text
  posterPath : Option Text
  deriving DecidableEq

/-- A row of `shows` with the new columns. -/
structure ShowRow2 extends ShowRow where
  imdbId : Option Text
  overview : Option Text
  posterPath : Option Text
  normTitle : Option Text
  deriving DecidableEq

structure Tables2 where
  mediaFiles : List MediaFileRow
  movies : List MovieRow2
  shows : List ShowRow2
  episodes : List EpisodeRow

/-! ### The statements -/

def addMovieColumns (m : MovieRow) : MovieRow2 := ⟨m, none, none⟩

def addShowColumns (s : ShowRow) : ShowRow2 := ⟨s, none, none, none, none⟩

def addColumns (db : Tables) : Tables2 where
  mediaFiles := db.mediaFiles
  movies := db.movies.map addMovieColumns
  shows := db.shows.map addShowColumns
  episodes := db.episodes

/-- The nine `REPLACE`s: separators become blanks, and runs of blanks become shorter. -/
def spaced (t : Text) : Text :=
  let t := replace (replace (replace t ['.'] [' ']) ['_'] [' ']) ['-'] [' ']
  let t := replace t [' ', ' ', ' '] [' ']
  let t := replace (replace t [' ', ' '] [' ']) [' ', ' '] [' ']
  replace (replace (replace t [' ', ' '] [' ']) [' ', ' '] [' ']) [' ', ' '] [' ']

/-- 2. Backfill `norm_title` for existing rows. -/
def backfill (s : ShowRow2) : ShowRow2 :=
  { s with normTitle := some (trim (spaced (lower (trim s.title)))) }

def endsInYear (t : Text) : Bool :=
  5 < length t && substr t (length t - 4) 1 == [' '] &&
    (substr t (length t - 3) 2 == ['1', '9'] || substr t (length t - 3) 2 == ['2', '0']) &&
    isDigit (substr t (length t - 1) 1) && isDigit (substr t (length t) 1)

def dropYear (t : Text) : Text :=
  if endsInYear t then trim (substr t 1 (length t - 5)) else t

def stripYear (s : ShowRow2) : ShowRow2 := { s with normTitle := s.normTitle.map dropYear }

/-- Collapse to non-empty; fall back to the lowercased raw title if blank. -/
def fallBack (s : ShowRow2) : ShowRow2 :=
  if s.normTitle = none ∨ s.normTitle = some [] then
    { s with normTitle := some (lower (trim s.title)) }
  else s

/-- `=` of two texts, as a condition: it is not met where one of them is null. -/
def sqlEq : Option Text → Option Text → Bool
  | some a, some b => a == b
  | _, _ => false

/-- `SELECT MIN(id) FROM shows WHERE norm_title = k` -/
def minId (shows : List ShowRow2) (k : Option Text) : Option ℤ :=
  ((shows.filter fun s => sqlEq s.normTitle k).map (·.id)).min?

/-- `s.id <> (SELECT MIN(s3.id) FROM shows s3 WHERE s3.norm_title = s.norm_title)` -/
def isDuplicate (shows : List ShowRow2) (s : ShowRow2) : Bool :=
  match minId shows s.normTitle with
  | none => false
  | some m => s.id != m

/-- `SELECT s1.norm_title FROM shows s1 WHERE s1.id = i` -/
def normTitleOf (shows : List ShowRow2) (i : ℤ) : Option Text :=
  (shows.find? fun s => s.id = i).bind (·.normTitle)

/-- The new value of `show_id`, which is not null; it is the id of a show. -/
def repointed (shows : List ShowRow2) (e : EpisodeRow) : Option EpisodeRow :=
  (minId shows (normTitleOf shows e.showId)).map fun m => { e with showId := m }

def isDuplicateId (shows : List ShowRow2) (i : ℤ) : Bool :=
  (shows.filter (isDuplicate shows)).any fun s => s.id = i

/-- 3. Repoint episodes of duplicate shows onto the lowest surviving id. -/
def repoint (t : Tables2) : Option Tables2 :=
  (KeyedRows.update EpisodeRow.key (fun e => isDuplicateId t.shows e.showId)
    (repointed t.shows) t.episodes).map fun es => { t with episodes := es }

/-- 4. Delete the now-orphaned duplicate show rows. The episodes that one still has go with it. -/
def deleteDuplicates (t : Tables2) : Tables2 :=
  { t with
    shows := t.shows.filter fun s => !isDuplicate t.shows s
    episodes := t.episodes.filter fun e => !isDuplicateId t.shows e.showId }

/-- 5. The `UNIQUE` index on `norm_title`, of the values that are not null. -/
def uniqueNormTitle (t : Tables2) : Option Tables2 :=
  if (t.shows.filterMap (·.normTitle)).Nodup then some t else none

/-- **The migration**, in a transaction: there is nothing where a statement fails. -/
def mediaMetadata (db : Tables) : Option Tables2 :=
  let t := addColumns db
  let t := { t with shows := t.shows.map backfill }
  let t := { t with shows := t.shows.map stripYear }
  let t := { t with shows := t.shows.map fallBack }
  (repoint t).bind fun t => uniqueNormTitle (deleteDuplicates t)

/-! ### The lowest show of a series -/

section Shows

variable {shows : List ShowRow2} {s s' : ShowRow2} {k : Text} {i m : ℤ}

theorem sqlEq_some {a : Option Text} : sqlEq a (some k) = true ↔ a = some k := by
  cases a <;> simp [sqlEq]

/-- **The lowest id** of a `norm_title` is that of a show that has it, and no such show has a lower
one. -/
theorem minId_eq_some : minId shows (some k) = some m ↔
    (∃ s ∈ shows, s.normTitle = some k ∧ s.id = m) ∧
      ∀ s ∈ shows, s.normTitle = some k → m ≤ s.id := by
  rw [minId, List.min?_eq_some_iff]
  simp only [List.mem_map, List.mem_filter, sqlEq_some, forall_exists_index, and_imp, and_assoc]
  refine and_congr_right' ⟨fun h s hs hk => h s.id s hs hk rfl, ?_⟩
  rintro h _ s hs hk rfl
  exact h s hs hk

/-- Every `norm_title` that a show has has a lowest id. -/
theorem exists_minId (hs : s ∈ shows) (hk : s.normTitle = some k) :
    ∃ m, minId shows (some k) = some m := by
  rw [← Option.ne_none_iff_exists', minId, Ne, List.min?_eq_none_iff, List.map_eq_nil_iff]
  intro hnil
  have hmem : s ∈ shows.filter fun s => sqlEq s.normTitle (some k) :=
    List.mem_filter.mpr ⟨hs, sqlEq_some.mpr hk⟩
  rw [hnil] at hmem
  exact absurd hmem List.not_mem_nil

theorem eq_of_id (hid : (shows.map (·.id)).Nodup) (hs : s ∈ shows) (hs' : s' ∈ shows)
    (h : s.id = s'.id) : s = s' :=
  List.inj_on_of_nodup_map hid hs hs' h

theorem normTitleOf_id (hid : (shows.map (·.id)).Nodup) (hs : s ∈ shows) :
    normTitleOf shows s.id = s.normTitle := by
  obtain ⟨t, ht⟩ : ∃ t, shows.find? (fun t => t.id = s.id) = some t := by
    rw [← Option.isSome_iff_exists, List.find?_isSome]
    exact ⟨s, hs, decide_eq_true rfl⟩
  have hts : t.id = s.id := by simpa using List.find?_some ht
  rw [normTitleOf, ht, Option.bind_some, eq_of_id hid (List.mem_of_find?_eq_some ht) hs hts]

/-- The show that stands for the series of the show of id `i`. -/
def home (shows : List ShowRow2) (i : ℤ) : ℤ := (minId shows (normTitleOf shows i)).getD i

/-- **The home of a show** is a show of its series of lowest id. -/
theorem home_spec (hid : (shows.map (·.id)).Nodup) (hs : s ∈ shows) (hk : s.normTitle = some k) :
    minId shows (some k) = some (home shows s.id) := by
  obtain ⟨m, hm⟩ := exists_minId hs hk
  rw [home, normTitleOf_id hid hs, hk, hm]
  rfl

/-- Two shows have one home when they have one `norm_title`, and then only. -/
theorem home_eq_iff (hid : (shows.map (·.id)).Nodup) {k' : Text} (hs : s ∈ shows)
    (hk : s.normTitle = some k) (hs' : s' ∈ shows) (hk' : s'.normTitle = some k') :
    home shows s.id = home shows s'.id ↔ k = k' := by
  have h := home_spec hid hs hk
  have h' := home_spec hid hs' hk'
  constructor
  · intro heq
    obtain ⟨⟨t, ht, htk, hti⟩, _⟩ := minId_eq_some.mp h
    obtain ⟨⟨t', ht', htk', hti'⟩, _⟩ := minId_eq_some.mp h'
    obtain rfl := eq_of_id hid ht ht' (hti.trans (heq.trans hti'.symm))
    exact Option.some.inj (htk.symm.trans htk')
  · rintro rfl
    exact Option.some.inj (h.symm.trans h')

theorem isDuplicate_iff (hid : (shows.map (·.id)).Nodup) (hs : s ∈ shows)
    (hk : s.normTitle = some k) : isDuplicate shows s = true ↔ home shows s.id ≠ s.id := by
  rw [isDuplicate, hk, home_spec hid hs hk]
  exact bne_iff_ne.trans ne_comm

theorem isDuplicateId_iff (hid : (shows.map (·.id)).Nodup) (hs : s ∈ shows)
    (hk : s.normTitle = some k) : isDuplicateId shows s.id = true ↔ home shows s.id ≠ s.id := by
  rw [isDuplicateId, List.any_eq_true, ← isDuplicate_iff hid hs hk]
  constructor
  · rintro ⟨t, ht, hti⟩
    obtain ⟨ht, hdup⟩ := List.mem_filter.mp ht
    rwa [← eq_of_id hid ht hs (of_decide_eq_true hti)]
  · exact fun hdup => ⟨s, List.mem_filter.mpr ⟨hs, hdup⟩, decide_eq_true rfl⟩

theorem exists_home (hid : (shows.map (·.id)).Nodup) (hs : s ∈ shows)
    (hk : s.normTitle = some k) :
    ∃ t ∈ shows, t.id = home shows s.id ∧ t.normTitle = some k ∧ home shows t.id = t.id := by
  obtain ⟨⟨t, ht, htk, hti⟩, _⟩ := minId_eq_some.mp (home_spec hid hs hk)
  exact ⟨t, ht, hti, htk, ((home_eq_iff hid ht htk hs hk).mpr rfl).trans hti.symm⟩

/-- Every show has a `norm_title`. -/
def Named (shows : List ShowRow2) : Prop := ∀ s ∈ shows, ∃ k, s.normTitle = some k

def underHome (shows : List ShowRow2) (e : EpisodeRow) : EpisodeRow :=
  { e with showId := home shows e.showId }

/-- **The repointing** goes through exactly when the episodes under the homes of their shows have
keys that differ, and these are then the episodes. -/
theorem repoint_eq_some {t t' : Tables2} (hid : (t.shows.map (·.id)).Nodup) (hnamed : Named t.shows)
    (hkey : (t.episodes.map EpisodeRow.key).Nodup)
    (hshow : ∀ e ∈ t.episodes, ∃ s ∈ t.shows, s.id = e.showId) :
    repoint t = some t' ↔ t' = { t with episodes := t.episodes.map (underHome t.shows) } ∧
      ((t.episodes.map (underHome t.shows)).map EpisodeRow.key).Nodup := by
  have hupdate : ∀ es, KeyedRows.update EpisodeRow.key (fun e => isDuplicateId t.shows e.showId)
      (repointed t.shows) t.episodes = some es ↔
      es = t.episodes.map (underHome t.shows) ∧
        ((t.episodes.map (underHome t.shows)).map EpisodeRow.key).Nodup := by
    intro es
    refine KeyedRows.update_eq_some (fun e he _ => ?_) (fun e he hdup => ?_) hkey
      fun e he e' he' _ hdup hk => ?_
    · obtain ⟨s, hs, hse⟩ := hshow e he
      obtain ⟨k, hk⟩ := hnamed s hs
      rw [repointed, ← hse, normTitleOf_id hid hs, hk, home_spec hid hs hk, Option.map_some, hse,
        underHome]
    · -- a show that is no duplicate is its own home
      obtain ⟨s, hs, hse⟩ := hshow e he
      obtain ⟨k, hk⟩ := hnamed s hs
      rw [← hse, ← Bool.not_eq_true, isDuplicateId_iff hid hs hk, not_not, hse] at hdup
      rw [underHome, hdup]
    · -- a home is no duplicate, so no row that is updated is there yet
      obtain ⟨s, hs, hse⟩ := hshow e he
      obtain ⟨k, hsk⟩ := hnamed s hs
      obtain ⟨s', hs', hse'⟩ := hshow e' he'
      obtain ⟨k', hsk'⟩ := hnamed s' hs'
      obtain ⟨h, hh, hhi, hhk, hself⟩ := exists_home hid hs hsk
      have hi : home t.shows e.showId = e'.showId := (Prod.ext_iff.mp hk).1
      rw [← hse, ← hhi] at hi
      rw [← hi, isDuplicateId_iff hid hh hhk] at hdup
      exact hdup hself
  rw [repoint, Option.map_eq_some_iff]
  constructor
  · rintro ⟨es, hes, rfl⟩
    obtain ⟨rfl, hnd⟩ := (hupdate es).mp hes
    exact ⟨rfl, hnd⟩
  · rintro ⟨rfl, hnd⟩
    exact ⟨_, (hupdate _).mpr ⟨rfl, hnd⟩, rfl⟩

def survivors (shows : List ShowRow2) : List ShowRow2 := shows.filter fun s => !isDuplicate shows s

theorem mem_survivors (hid : (shows.map (·.id)).Nodup) (hnamed : Named shows) :
    s ∈ survivors shows ↔ s ∈ shows ∧ home shows s.id = s.id := by
  rw [survivors, List.mem_filter]
  refine and_congr_right fun hs => ?_
  obtain ⟨k, hk⟩ := hnamed s hs
  rw [Bool.not_eq_true', ← Bool.not_eq_true, isDuplicate_iff hid hs hk, not_not]

/-- No two survivors have one `norm_title`. -/
theorem nodup_survivors (hid : (shows.map (·.id)).Nodup) (hnamed : Named shows) :
    ((survivors shows).map (·.normTitle)).Nodup := by
  have hnd : (survivors shows).Nodup := (List.Nodup.of_map _ hid).filter _
  refine hnd.map_on fun s hs s' hs' h => ?_
  obtain ⟨hs, hself⟩ := (mem_survivors hid hnamed).mp hs
  obtain ⟨hs', hself'⟩ := (mem_survivors hid hnamed).mp hs'
  obtain ⟨k, hk⟩ := hnamed s hs
  refine eq_of_id hid hs hs' ?_
  rw [← hself, ← hself']
  exact (home_eq_iff hid hs hk hs' (h ▸ hk)).mpr rfl

/-- **After the repointing the rest goes through**, and no episode is deleted. -/
theorem uniqueNormTitle_deleteDuplicates {t : Tables2} (hid : (t.shows.map (·.id)).Nodup)
    (hnamed : Named t.shows) (hshow : ∀ e ∈ t.episodes, ∃ s ∈ t.shows, s.id = e.showId) :
    uniqueNormTitle
        (deleteDuplicates { t with episodes := t.episodes.map (underHome t.shows) }) =
      some { t with
        shows := survivors t.shows
        episodes := t.episodes.map (underHome t.shows) } := by
  have hes : (t.episodes.map (underHome t.shows)).filter
      (fun e => !isDuplicateId t.shows e.showId) = t.episodes.map (underHome t.shows) := by
    rw [List.filter_eq_self]
    intro e' he'
    obtain ⟨e, he, rfl⟩ := List.mem_map.mp he'
    obtain ⟨s, hs, hse⟩ := hshow e he
    obtain ⟨k, hk⟩ := hnamed s hs
    obtain ⟨h, hh, hhi, hhk, hself⟩ := exists_home hid hs hk
    rw [Bool.not_eq_true', ← Bool.not_eq_true, underHome, ← hse, ← hhi,
      isDuplicateId_iff hid hh hhk, not_not]
    exact hself
  have hnd : ((survivors t.shows).filterMap (·.normTitle)).Nodup := by
    have h := (nodup_survivors hid hnamed).filterMap (f := id) fun a b c ha hb => ha.trans hb.symm
    rwa [List.filterMap_map] at h
  rw [deleteDuplicates, hes, uniqueNormTitle]
  exact if_pos hnd

end Shows

/-! ### What the migration does -/

/-- **The `norm_title`** of a show of this title. -/
def normTitle (title : Text) : Text :=
  let t := dropYear (trim (spaced (lower (trim title))))
  if t = [] then lower (trim title) else t

/-- A show with its `norm_title`. -/
def named (s : ShowRow) : ShowRow2 :=
  { addShowColumns s with normTitle := some (normTitle s.title) }

theorem fallBack_stripYear_backfill (s : ShowRow) :
    fallBack (stripYear (backfill (addShowColumns s))) = named s := by
  rw [fallBack, named, normTitle]
  by_cases h : dropYear (trim (spaced (lower (trim s.title)))) = []
  · simp [stripYear, backfill, addShowColumns, h]
  · simp [stripYear, backfill, addShowColumns, h]

def withNames (db : Tables) : Tables2 where
  mediaFiles := db.mediaFiles
  movies := db.movies.map addMovieColumns
  shows := db.shows.map named
  episodes := db.episodes

variable {db : Db} {db' : Tables2} {s : ShowRow} {e : EpisodeRow} {k : Text}

theorem mediaMetadata_eq (db : Tables) : mediaMetadata db =
    (repoint (withNames db)).bind fun t => uniqueNormTitle (deleteDuplicates t) := by
  have hshows : (((db.shows.map addShowColumns).map backfill).map stripYear).map fallBack =
      db.shows.map named := by
    simp only [List.map_map, List.map_inj_left, Function.comp_apply, fallBack_stripYear_backfill,
      implies_true]
  simp only [mediaMetadata, withNames, addColumns, hshows]

theorem nodup_named_id (db : Db) : ((db.shows.map named).map (·.id)).Nodup := by
  rw [List.map_map]
  exact db.shows_id

theorem named_named (db : Db) : Named (db.shows.map named) := by
  intro t ht
  obtain ⟨s, _, rfl⟩ := List.mem_map.mp ht
  exact ⟨_, rfl⟩

theorem exists_named (db : Db) (he : e ∈ db.episodes) :
    ∃ t ∈ db.shows.map named, t.id = e.showId := by
  obtain ⟨s, hs, hse⟩ := db.episodes_showId e he
  exact ⟨named s, List.mem_map_of_mem hs, hse⟩

/-- **What the migration makes of a database**, and when. -/
theorem mediaMetadata_eq_some : mediaMetadata db.toTables = some db' ↔
    db' = { withNames db.toTables with
      shows := survivors (db.shows.map named)
      episodes := db.episodes.map (underHome (db.shows.map named)) } ∧
    ((db.episodes.map (underHome (db.shows.map named))).map EpisodeRow.key).Nodup := by
  have hrest := uniqueNormTitle_deleteDuplicates (t := withNames db.toTables) (nodup_named_id db)
    (named_named db) fun e he => exists_named db he
  rw [mediaMetadata_eq, Option.bind_eq_some_iff]
  constructor
  · rintro ⟨t, ht, hdb'⟩
    obtain ⟨rfl, hnd⟩ := (repoint_eq_some (nodup_named_id db) (named_named db) db.episodes_key
      fun e he => exists_named db he).mp ht
    exact ⟨(Option.some.inj (hrest.symm.trans hdb')).symm, hnd⟩
  · rintro ⟨rfl, hnd⟩
    exact ⟨_, (repoint_eq_some (nodup_named_id db) (named_named db) db.episodes_key
      fun e he => exists_named db he).mpr ⟨rfl, hnd⟩, hrest⟩

/-- The episode is one of a show of this `norm_title`. -/
def OfSeries (db : Tables) (k : Text) (e : EpisodeRow) : Prop :=
  ∃ s ∈ db.shows, s.id = e.showId ∧ normTitle s.title = k

/-- **No two rows are the same episode of one series.** -/
def Clashless (db : Tables) : Prop :=
  ∀ k, ∀ e ∈ db.episodes, ∀ e' ∈ db.episodes, OfSeries db k e → OfSeries db k e' →
    e.season = e'.season → e.episode = e'.episode → e = e'

/-- **The duplicate shows are collapsed without loss.** -/
structure Collapsed (db : Tables) (db' : Tables2) : Prop where
  /-- Every show has a `norm_title`. -/
  normTitle_ne_none : ∀ t ∈ db'.shows, t.normTitle ≠ none
  /-- No two shows have one. -/
  nodup_normTitle : (db'.shows.map (·.normTitle)).Nodup
  /-- A show is the lowest of its class, as it was. -/
  lowest : ∀ t ∈ db'.shows, t.toShowRow ∈ db.shows ∧
    t.normTitle = some (normTitle t.title) ∧
    ∀ s ∈ db.shows, normTitle s.title = normTitle t.title → t.id ≤ s.id
  /-- Every class has one. -/
  survives : ∀ s ∈ db.shows, ∃ t ∈ db'.shows, t.normTitle = some (normTitle s.title)
  /-- The movies are as they were. -/
  movies : db'.movies.map (·.toMovieRow) = db.movies
  /-- The files are as they were. -/
  mediaFiles : db'.mediaFiles = db.mediaFiles
  /-- An episode that a class had is one row of its show. -/
  episodes : ∀ k season episode,
    (∃ e ∈ db.episodes, OfSeries db k e ∧ e.season = season ∧ e.episode = episode) →
    ∃ t ∈ db'.shows, t.normTitle = some k ∧
      (db'.episodes.map EpisodeRow.key).count (t.id, season, episode) = 1

/-- Two episodes are under one home when their shows have one `norm_title`. -/
theorem home_showId_iff {e e' : EpisodeRow} (he : e ∈ db.episodes) (he' : e' ∈ db.episodes) :
    home (db.shows.map named) e.showId = home (db.shows.map named) e'.showId ↔
      ∃ k, OfSeries db.toTables k e ∧ OfSeries db.toTables k e' := by
  obtain ⟨s, hs, hse⟩ := db.episodes_showId e he
  obtain ⟨s', hs', hse'⟩ := db.episodes_showId e' he'
  have heq := home_eq_iff (nodup_named_id db) (List.mem_map_of_mem (f := named) hs) rfl
    (List.mem_map_of_mem (f := named) hs') rfl
  rw [show (named s).id = s.id from rfl, show (named s').id = s'.id from rfl, hse, hse'] at heq
  rw [heq]
  constructor
  · intro h
    exact ⟨_, ⟨s, hs, hse, rfl⟩, s', hs', hse', h.symm⟩
  · rintro ⟨k, ⟨r, hr, hre, rfl⟩, r', hr', hre', h'⟩
    rw [List.inj_on_of_nodup_map db.shows_id hs hr (hse.trans hre.symm),
      List.inj_on_of_nodup_map db.shows_id hs' hr' (hse'.trans hre'.symm), h']

/-- **The keys differ under the homes** exactly when no two rows are the same episode. -/
theorem nodup_underHome_iff :
    ((db.episodes.map (underHome (db.shows.map named))).map EpisodeRow.key).Nodup ↔
      Clashless db.toTables := by
  rw [List.map_map, List.nodup_map_iff_inj_on (List.Nodup.of_map _ db.episodes_id)]
  constructor
  · intro h k e he e' he' hk hk' hseason hepisode
    refine h e he e' he' (Prod.ext ?_ (Prod.ext hseason hepisode))
    exact (home_showId_iff he he').mpr ⟨k, hk, hk'⟩
  · intro h e he e' he' heq
    obtain ⟨hhome, hrest⟩ := Prod.ext_iff.mp heq
    obtain ⟨hseason, hepisode⟩ := Prod.ext_iff.mp hrest
    obtain ⟨k, hk, hk'⟩ := (home_showId_iff he he').mp hhome
    exact h k e he e' he' hk hk' hseason hepisode

theorem exists_survivor (hs : s ∈ db.shows) : ∃ t ∈ survivors (db.shows.map named),
    t.id = home (db.shows.map named) s.id ∧ t.normTitle = some (normTitle s.title) := by
  obtain ⟨t, ht, hti, htk, hself⟩ := exists_home (nodup_named_id db)
    (List.mem_map_of_mem (f := named) hs) rfl
  exact ⟨t, (mem_survivors (nodup_named_id db) (named_named db)).mpr ⟨ht, hself⟩, hti, htk⟩

/-- **What the migration makes of a database is collapsed.** -/
theorem collapsed_of_mediaMetadata (h : mediaMetadata db.toTables = some db') :
    Collapsed db.toTables db' := by
  obtain ⟨rfl, hnd⟩ := mediaMetadata_eq_some.mp h
  have hid := nodup_named_id db
  have hnamed := named_named db
  refine ⟨fun t ht => ?_, nodup_survivors hid hnamed, fun t ht => ?_, fun s hs => ?_, ?_, rfl,
    ?_⟩
  · obtain ⟨k, hk⟩ := hnamed t ((mem_survivors hid hnamed).mp ht).1
    rw [hk]
    exact Option.some_ne_none k
  · obtain ⟨ht, hself⟩ := (mem_survivors hid hnamed).mp ht
    obtain ⟨s, hs, rfl⟩ := List.mem_map.mp ht
    refine ⟨hs, rfl, fun s' hs' heq => ?_⟩
    have hmin := (minId_eq_some.mp (home_spec hid ht rfl)).2
    rw [hself] at hmin
    exact hmin (named s') (List.mem_map_of_mem hs') (congrArg some heq)
  · obtain ⟨t, ht, _, hk⟩ := exists_survivor hs
    exact ⟨t, ht, hk⟩
  · rw [withNames, List.map_map]
    exact List.map_id _
  · rintro k season episode ⟨e, he, ⟨s, hs, hse, rfl⟩, rfl, rfl⟩
    obtain ⟨t, ht, hti, hk⟩ := exists_survivor hs
    refine ⟨t, ht, hk, List.count_eq_one_of_mem hnd ?_⟩
    rw [hti, hse]
    exact List.mem_map.mpr ⟨_, List.mem_map_of_mem he, rfl⟩

/-- **The migration collapses the duplicate shows** of a database without loss exactly when no two
rows are the same episode of one series; otherwise it fails. -/
theorem mediaMetadata_collapses (db : Db) :
    (∃ db', mediaMetadata db.toTables = some db' ∧ Collapsed db.toTables db') ↔
      Clashless db.toTables := by
  rw [← nodup_underHome_iff]
  constructor
  · rintro ⟨db', h, _⟩
    exact (mediaMetadata_eq_some.mp h).2
  · intro hnd
    have h := mediaMetadata_eq_some.mpr ⟨rfl, hnd⟩
    exact ⟨_, h, collapsed_of_mediaMetadata h⟩

/-! ### A series of which two shows have the pilot -/

def pilotFile (i : ℤ) (path : String) : MediaFileRow where
  id := i
  path := path.toList
  sizeBytes := 1
  mtime := []
  container := none
  durationSecs := none
  videoCodec := none
  videoHeight := none
  videoProfile := none
  hdrFormat := none
  audioTracksJson := "[]".toList
  subtitleTracksJson := "[]".toList
  scannedAt := []

def titled (i : ℤ) (title : String) : ShowRow := ⟨i, none, none, title.toList, none, []⟩

def pilot (i : ℤ) : EpisodeRow := ⟨i, i, 1, 1, none, none, i⟩

/-- A series under two folder names, one of them with the year. -/
def adventureTime : Db where
  mediaFiles := [pilotFile 1 "/tv/Adventure Time/s01e01.mkv",
    pilotFile 2 "/tv/Adventure Time 2008/s01e01.mkv"]
  movies := []
  shows := [titled 1 "Adventure Time", titled 2 "Adventure Time 2008"]
  episodes := [pilot 1, pilot 2]
  mediaFiles_id := by decide
  mediaFiles_path := by decide +kernel
  movies_id := List.nodup_nil
  movies_tmdbId := List.nodup_nil
  movies_fileId := by simp
  shows_id := by decide
  shows_tmdbId := by decide
  episodes_id := by decide
  episodes_key := by decide
  episodes_showId := by decide
  episodes_fileId := by decide

theorem duplicate_shows_fail : ¬ ∀ db : Db, ∃ db', mediaMetadata db.toTables = some db' ∧
    Collapsed db.toTables db' := by
  intro h
  obtain ⟨db', h, _⟩ := h adventureTime
  have hnone : mediaMetadata adventureTime.toTables = none := by decide +kernel
  rw [hnone] at h
  exact Option.some_ne_none db' h.symm

end EmeraldExchange.MediaCore.MergeShows
