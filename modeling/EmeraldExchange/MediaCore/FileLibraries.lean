import EmeraldExchange.MediaCore.Scans

/-!
# The scans of the other libraries

Music, audiobooks and the videos of channels are in the same table of files as films and episodes,
each under roots of its own: `scan_music_once`, `scan_audiobooks_once` and `scan_youtube_once` in
`crates/media-core/src/scanner.rs`. They walk with `walk_matching_roots`, which asks for a name
only, and each deletes the rows of files that are gone as `scan_once` does, but only its own.

So the four of them agree on a row as long as `scan_once`, which looks at all rows, does. A row
whose file is there is kept by every scan, if it is in no extras folder below a healthy root of
`scan_once`; and a row whose file is gone is deleted by every scan that has a healthy root above it
and owns it (`prune_agrees`). What a scan does not own it leaves alone, so
a row under a healthy root may stay (`unowned_row_stays`).
-/

namespace EmeraldExchange.MediaCore

open Program Relation

variable (env : ScanEnv)

/-! ### Walks -/

def extension (name : String) : List Char := (name.toList.reverse.takeWhile (· ≠ '.')).reverse

/-- `AUDIO_EXTENSIONS` -/
def audioExtensions : List String := ["mp3", "m4a", "aac", "flac", "ogg", "opus", "wav"]

/-- `is_audio_file` -/
def isAudioFile (name : String) : Bool :=
  '.' ∈ name.toList && String.ofList ((extension name).map Char.toLower) ∈ audioExtensions

/-- `is_audiobook_file` -/
def isAudiobookFile (name : String) : Bool :=
  isAudioFile name ||
    ('.' ∈ name.toList && String.ofList ((extension name).map Char.toLower) = "m4b")

/-- The walk of a root lists a file whose name matches. -/
def listedIn (matching : String → Bool) (root : Path) (f : DiskFile) : Bool :=
  env.mounted root && root.isPrefixOf f.path && root ≠ f.path &&
    (env.unreadable.all fun p => !(root.isPrefixOf p && p.isPrefixOf f.path)) &&
    matching (f.path.getLastD "")

/-- **`walk_matching_roots`**, in one order. -/
def walkMatchingRoots (roots : List Path) (matching : String → Bool) : List DiskFile :=
  roots.flatMap fun root => env.disk.filter (listedIn env matching root)

/-- The roots that were there and could be read. -/
def healthyRoots (roots : List Path) : List Path :=
  roots.filter fun root => env.mounted root && env.unreadable.all fun p => !root.isPrefixOf p

/-! ### The libraries -/

/-- **What sets a library of files apart**: which names it walks for, which of these files it passes
over, and the table that says which files are its own. -/
structure FileLibrary where
  matching : String → Bool
  passesOver : List Path → Path → Bool
  /-- How many statements come before the row of a file, on tables that nothing here reads. -/
  before : ℕ
  rows : MediaDb → AutoTable ℕ
  setRows : AutoTable ℕ → MediaDb → MediaDb
  rows_setRows : ∀ t db, rows (setRows t db) = t
  files_setRows : ∀ t db, (setRows t db).files = db.files
  rows_withFiles : ∀ t db, rows { db with files := t } = rows db

/-- Tracks: `upsert_artist` and `upsert_album` come before one. -/
def music : FileLibrary where
  matching := isAudioFile
  passesOver _ _ := false
  before := 4
  rows := MediaDb.tracks
  setRows t db := { db with tracks := t }
  rows_setRows _ _ := rfl
  files_setRows _ _ := rfl
  rows_withFiles _ _ := rfl

def audiobooks : FileLibrary where
  matching := isAudiobookFile
  passesOver _ _ := false
  before := 0
  rows := MediaDb.audiobooks
  setRows t db := { db with audiobooks := t }
  rows_setRows _ _ := rfl
  files_setRows _ _ := rfl
  rows_withFiles _ _ := rfl

/-- `youtube_channel`: there is a folder between the file and the first root above it. -/
def hasChannel (roots : List Path) (path : Path) : Bool :=
  match roots.find? fun root => root.isPrefixOf path with
  | some root => root.length + 2 ≤ path.length
  | none => false

def youtube : FileLibrary where
  matching := isVideoFile
  passesOver roots path := !hasChannel roots path
  before := 0
  rows := MediaDb.videos
  setRows t db := { db with videos := t }
  rows_setRows _ _ := rfl
  files_setRows _ _ := rfl
  rows_withFiles _ _ := rfl

/-! ### Their scans -/

/-- Statements on tables that nothing here reads. -/
def statements : ℕ → Scan Unit
  | 0 => pure ()
  | n + 1 => do
    execute env some
    statements n

namespace FileLibrary

variable (L : FileLibrary) (roots : List Path)

/-- A file is indexed: a file has one row in the table of the library. -/
def indexFile (file : DiskFile) (height : Option ℤ) : Scan Unit := do
  let fileId ← upsertMediaFile env file height
  statements env L.before
  execute env fun db => some
    (L.setRows ((L.rows db).upsert (· = fileId) (fun _ => fileId) fileId) db)

/-- A file of the walk: one that is as it was is not looked at again. -/
def scanFile (file : DiskFile) : Scan Unit :=
  if L.passesOver roots file.path then pure ()
  else
    recover (select env (MediaDb.fileRow file.path)) fun row =>
      if row.any fun x => file.unchanged x.2 then pure ()
      else
        match file.probe with
        | none => pure ()
        | some height => logged (L.indexFile env file height)

/-- The files of a walk, one after the other. -/
def scanFiles : List DiskFile → Scan Unit
  | [] => pure ()
  | file :: files => do
    L.scanFile env roots file
    scanFiles files

def ownFiles (db : MediaDb) : List (ℕ × MediaFile) :=
  db.files.rows.filter fun x => (L.rows db).rows.any fun r => r.2 = x.1

def missingFiles (rows : List (ℕ × MediaFile)) : List ℕ :=
  (rows.filter fun x => ((healthyRoots env roots).any fun root => root.isPrefixOf x.2.path) &&
    !env.onDisk x.2.path).map Prod.fst

/-- Rows of files that are gone are deleted, below roots that are healthy. -/
def prune : Scan Unit :=
  if healthyRoots env roots = [] then pure ()
  else do
    let rows ← select env L.ownFiles
    let _ ← deleteFiles env (missingFiles env roots rows)
    pure ()

/-- **A scan**, in the order of a walk. Nothing follows the prune, whether it fails or not. -/
def scanOnce (walk : List DiskFile) : Scan Unit :=
  if roots = [] then pure ()
  else do
    L.scanFiles env roots walk
    L.prune env roots

end FileLibrary

/-- **`scan_music_once`** -/
def scanMusicOnce (roots : List Path) : List DiskFile → Scan Unit := music.scanOnce env roots

/-- **`scan_audiobooks_once`** -/
def scanAudiobooksOnce (roots : List Path) : List DiskFile → Scan Unit :=
  audiobooks.scanOnce env roots

/-- **`scan_youtube_once`** -/
def scanYoutubeOnce (roots : List Path) : List DiskFile → Scan Unit := youtube.scanOnce env roots

/-! ### Configurations -/

structure FileRoots where
  musicRoots : List Path := []
  audiobookRoots : List Path := []
  youtubeRoots : List Path := []

inductive Pass
  | video
  | music
  | audiobooks
  | youtube
  deriving DecidableEq

variable (c : FileRoots)

/-- **The scans**: each goes through what it has walked in some order. -/
inductive IsScan : Pass → Scan Unit → Prop
  | video {walk : List WalkedFile} (h : walk.Perm (walkRoots env)) :
    IsScan .video (scanOnce env walk)
  | music {walk : List DiskFile}
    (h : walk.Perm (walkMatchingRoots env c.musicRoots music.matching)) :
    IsScan .music (scanMusicOnce env c.musicRoots walk)
  | audiobooks {walk : List DiskFile}
    (h : walk.Perm (walkMatchingRoots env c.audiobookRoots audiobooks.matching)) :
    IsScan .audiobooks (scanAudiobooksOnce env c.audiobookRoots walk)
  | youtube {walk : List DiskFile}
    (h : walk.Perm (walkMatchingRoots env c.youtubeRoots youtube.matching)) :
    IsScan .youtube (scanYoutubeOnce env c.youtubeRoots walk)

def Pass.healthy : Pass → List Path
  | .video => (prunableRoots env).map (·.path)
  | .music => healthyRoots env c.musicRoots
  | .audiobooks => healthyRoots env c.audiobookRoots
  | .youtube => healthyRoots env c.youtubeRoots

/-- **The rows that a scan takes for its own**: `scan_once` takes all. -/
def Pass.Owns (db : MediaDb) (id : ℕ) : Pass → Prop
  | .video => True
  | .music => ∃ t ∈ db.tracks, t.2 = id
  | .audiobooks => ∃ t ∈ db.audiobooks, t.2 = id
  | .youtube => ∃ t ∈ db.videos, t.2 = id

def after (p : Scan Unit) (db : MediaDb) : MediaDb := (p ⟨db, 0⟩).2.db

/-! ### What a prune does -/

section prune

variable {env : ScanEnv} {α : Type} {p : Scan α} {db db' : MediaDb} {ids : List ℕ} {id : ℕ}
  {path : Path} {P : MediaDb → Prop}

theorem of_ends {p : Scan Unit} (h : Ends p (fun _ => P) P db) : P (after p db) := by
  have h0 := h 0
  rw [Wp] at h0
  rw [after]
  rcases hp : p ⟨db, 0⟩ with ⟨_ | a, s⟩ <;> rw [hp] at h0 <;> exact h0

/-- **The prune of a library of files** -/
theorem FileLibrary.ends_prune (L : FileLibrary) (roots : List Path) : Ends (L.prune env roots)
    (fun _ => Pruned env (FileLibrary.missingFiles env roots (L.ownFiles db)) db)
    (Pruned env (FileLibrary.missingFiles env roots (L.ownFiles db)) db) db := by
  refine ends_ite (fun hnil => ends_pure ?_) fun _ => ?_
  · have hids : FileLibrary.missingFiles env roots (L.ownFiles db) = [] := by
      rw [FileLibrary.missingFiles, hnil]
      simp
    rw [hids]
    exact pruned_nil
  · refine ends_bind (ends_select ?_ pruned_of_faulty)
    exact ends_bind ((ends_deleteFiles _ db).mono (fun removed db' h => ends_pure h) fun _ h => h)

end prune

/-! ### What a visit keeps -/

section visits

variable {env : ScanEnv} {db db' : MediaDb} {id : ℕ} {path : Path} {P : MediaDb → Prop}
  {w : WalkedFile}

/-- A visit of `scan_once` keeps the rows of files. -/
theorem ends_scanFile_hasFile (hfile : db.HasFile id path) : Ends (scanFile env w)
    (fun _ db' => db'.HasFile id path) (fun db' => env.Faulty ∧ db'.HasFile id path) db := by
  exact (ends_scanFile_faulty.and (ends_scanFile (fun h hchange => hchange.hasFile h) hfile)).mono
    (fun _ _ h => h.2) fun _ h => h

theorem ends_scanFiles_hasFile : ∀ (walk : List WalkedFile) {db : MediaDb},
    db.HasFile id path → Ends (scanFiles env walk)
      (fun _ db' => db'.HasFile id path) (fun db' => env.Faulty ∧ db'.HasFile id path) db
  | [], _, h => ends_pure h
  | _ :: walk, _, h => ends_bind ((ends_scanFile_hasFile h).mono
      (fun _ _ h => ends_scanFiles_hasFile walk h) fun _ h => h)

def FileLibrary.Owns (L : FileLibrary) (db : MediaDb) (id : ℕ) : Prop := ∃ t ∈ L.rows db, t.2 = id

theorem ends_statements (n : ℕ) (h : P db) : Ends (statements env n) (fun _ => P) P db := by
  induction n with
  | zero => exact ends_pure h
  | succ n ih =>
    refine ends_bind (ends_execute (fun db' hdb' => ?_) fun _ => h)
    obtain rfl := Option.some.inj hdb'
    exact ih

/-- What is kept of a file: its row, and the one that the library has for it. -/
def FileLibrary.Keeps (L : FileLibrary) (own : Prop) (id : ℕ) (path : Path) (db : MediaDb) : Prop :=
  db.HasFile id path ∧ (own → L.Owns db id)

variable {L : FileLibrary} {own : Prop} {roots : List Path} {file : DiskFile}

theorem FileLibrary.ends_indexFile {height : Option ℤ} (h : L.Keeps own id path db) :
    Ends (L.indexFile env file height) (fun _ => L.Keeps own id path) (L.Keeps own id path) db := by
  refine ends_bind (ends_bind (ends_execute (fun db₁ hdb₁ => ?_) fun _ => h))
  obtain rfl := Option.some.inj hdb₁
  have hupsert : L.Keeps own id path { db with
      files := db.files.upsert (fun f => f.path = file.path) (fun _ => file.row height)
        (file.row height) } :=
    ⟨h.1.upsert (file.row height), fun hown => by
      rw [FileLibrary.Owns, L.rows_withFiles]
      exact h.2 hown⟩
  refine ends_fetchOne (fun fileId _ => ?_) fun _ => hupsert
  refine ends_bind ((ends_statements L.before hupsert).mono (fun _ db₂ h₂ => ?_) fun _ h => h)
  refine ends_execute (fun db₃ hdb₃ => ?_) fun _ => h₂
  obtain rfl := Option.some.inj hdb₃
  refine ⟨?_, fun hown => ?_⟩
  · rw [MediaDb.HasFile, L.files_setRows]
    exact h₂.1
  · obtain ⟨⟨i, j⟩, ht, rfl⟩ := h₂.2 hown
    rw [FileLibrary.Owns, L.rows_setRows, AutoTable.upsert]
    split
    · next x hx =>
      -- the row that is updated is of this file and stays so
      obtain ⟨hx, hxj⟩ := AutoTable.find?_eq_some hx
      replace hxj := of_decide_eq_true hxj
      by_cases hi : i = x.1
      · subst hi
        obtain rfl := AutoTable.eq_of_mem ht hx
        exact ⟨_, AutoTable.mem_updateRow_self ht, hxj.symm⟩
      · exact ⟨_, AutoTable.mem_updateRow_of_ne ht hi, rfl⟩
    · exact ⟨_, AutoTable.mem_insert.mpr (.inl ht), rfl⟩

/-- **A visit of a library of files** keeps the rows of files, and never breaks off. -/
theorem FileLibrary.ends_scanFile (h : L.Keeps own id path db) : Ends (L.scanFile env roots file)
    (fun _ => L.Keeps own id path) (fun _ => False) db := by
  refine ends_ite (fun _ => ends_pure h) fun _ => ?_
  refine ends_recover (ends_select ?_ fun _ => h)
  refine ends_ite (fun _ => ends_pure h) fun _ => ?_
  rcases file.probe with _ | height
  · exact ends_pure h
  · exact ends_logged (FileLibrary.ends_indexFile h)

theorem FileLibrary.ends_scanFiles : ∀ (walk : List DiskFile) {db : MediaDb},
    L.Keeps own id path db → Ends (L.scanFiles env roots walk)
      (fun _ => L.Keeps own id path) (fun _ => False) db
  | [], _, h => ends_pure h
  | _ :: walk, _, h => ends_bind ((FileLibrary.ends_scanFile h).mono
      (fun _ _ h => FileLibrary.ends_scanFiles walk h) fun _ h => h)

/-- **After a scan of a library of files**, some tables that it has come to are pruned. -/
theorem FileLibrary.pruned_scanOnce (walk : List DiskFile) (h : L.Keeps own id path db) :
    ∃ db₁, L.Keeps own id path db₁ ∧
      Pruned env (FileLibrary.missingFiles env roots (L.ownFiles db₁)) db₁
        (after (L.scanOnce env roots walk) db) := by
  refine of_ends (P := fun db' => ∃ db₁, L.Keeps own id path db₁ ∧
    Pruned env (FileLibrary.missingFiles env roots (L.ownFiles db₁)) db₁ db')
    (ends_ite (fun hnil => ends_pure ⟨db, h, ?_⟩) fun _ => ?_)
  · have hids : FileLibrary.missingFiles env roots (L.ownFiles db) = [] := by
      rw [FileLibrary.missingFiles, healthyRoots, hnil]
      simp
    rw [hids]
    exact pruned_nil
  · refine ends_bind ((FileLibrary.ends_scanFiles walk h).mono (fun _ db₁ h₁ => ?_)
      fun _ h => h.elim)
    exact (L.ends_prune roots).mono (fun _ _ h => ⟨db₁, h₁, h⟩) fun _ h => ⟨db₁, h₁, h⟩

/-- **After `scan_once`**, some tables that it has come to are pruned, or a statement has failed
before. -/
theorem pruned_scanOnce (walk : List WalkedFile) (h : db.HasFile id path) :
    ∃ db₁, db₁.HasFile id path ∧ (Pruned env (missingFiles env db₁.files.rows) db₁
      (after (scanOnce env walk) db) ∨ (env.Faulty ∧ db₁ = after (scanOnce env walk) db)) := by
  refine of_ends (P := fun db' => ∃ db₁, db₁.HasFile id path ∧
    (Pruned env (missingFiles env db₁.files.rows) db₁ db' ∨ (env.Faulty ∧ db₁ = db')))
    (ends_bind ((ends_scanFiles_hasFile walk h).mono (fun _ db₁ h₁ => ?_) fun db₁ h₁ => ?_))
  · exact ends_reconcile_pruned.mono (fun _ _ h => ⟨db₁, h₁, .inl h⟩) fun _ h => ⟨db₁, h₁, .inl h⟩
  · exact ⟨db₁, h₁.2, .inr ⟨h₁.1, rfl⟩⟩

end visits

/-! ### The walks and the prunes -/

section agreement

variable {env : ScanEnv} {c : FileRoots} {db : MediaDb} {x : ℕ × MediaFile} {pass : Pass}
  {p : Scan Unit}

/-- The row is still there, for the same file. -/
def Kept (x : ℕ × MediaFile) (db : MediaDb) : Prop := db.HasFile x.1 x.2.path

def Deleted (x : ℕ × MediaFile) (db : MediaDb) : Prop := ∀ y ∈ db.files, y.1 ≠ x.1

/-- **What a pruned table has of a row** depends on whether the row was picked. -/
theorem Pruned.cases {ids : List ℕ} {db₁ db' : MediaDb} (hfile : db₁.HasFile x.1 x.2.path)
    (h : Pruned env ids db₁ db') :
    (x.1 ∉ ids → Kept x db') ∧ (x.1 ∈ ids → ¬ env.Faulty → Deleted x db') := by
  obtain ⟨f, hf, hpath⟩ := hfile
  refine ⟨fun hid => ⟨f, h.1 _ hf hid, hpath⟩, fun hid hfaulty y hy heq => ?_⟩
  exact h.2.2.resolve_left hfaulty y hy (heq ▸ hid)

theorem FileLibrary.mem_missingFiles {L : FileLibrary} {roots : List Path}
    (hfile : db.HasFile x.1 x.2.path) :
    x.1 ∈ FileLibrary.missingFiles env roots (L.ownFiles db) ↔ L.Owns db x.1 ∧
      (∃ root ∈ healthyRoots env roots, root.isPrefixOf x.2.path = true) ∧
        env.onDisk x.2.path = false := by
  obtain ⟨f, hf, hpath⟩ := hfile
  have hown {id : ℕ} : ((L.rows db).rows.any fun r => r.2 = id) = true ↔ L.Owns db id := by
    simp [FileLibrary.Owns, AutoTable.mem_def]
  rw [FileLibrary.missingFiles, List.mem_map]
  constructor
  · rintro ⟨y, hy, heq⟩
    obtain ⟨hy, hpick⟩ := List.mem_filter.mp hy
    obtain ⟨hy, howns⟩ := List.mem_filter.mp hy
    obtain rfl : y = (x.1, f) := AutoTable.eq_of_fst_eq hy hf heq
    rw [Bool.and_eq_true, List.any_eq_true, Bool.not_eq_true', hpath] at hpick
    exact ⟨hown.mp howns, hpick⟩
  · rintro ⟨howns, hpick⟩
    refine ⟨(x.1, f), List.mem_filter.mpr ⟨List.mem_filter.mpr ⟨hf, hown.mpr howns⟩, ?_⟩, rfl⟩
    rwa [Bool.and_eq_true, List.any_eq_true, Bool.not_eq_true', hpath]

/-- **What a scan of a library of files does to a row.** -/
theorem FileLibrary.scanOnce_cases (L : FileLibrary) (roots : List Path) (walk : List DiskFile)
    (hx : x ∈ db.files) :
    (env.onDisk x.2.path = true → Kept x (after (L.scanOnce env roots walk) db)) ∧
      (¬ env.Faulty → env.onDisk x.2.path = false → L.Owns db x.1 →
        (∃ root ∈ healthyRoots env roots, root.isPrefixOf x.2.path = true) →
        Deleted x (after (L.scanOnce env roots walk) db)) := by
  obtain ⟨db₁, ⟨hfile, howns⟩, hpruned⟩ : ∃ db₁, L.Keeps (L.Owns db x.1) x.1 x.2.path db₁ ∧
      Pruned env (FileLibrary.missingFiles env roots (L.ownFiles db₁)) db₁
        (after (L.scanOnce env roots walk) db) :=
    FileLibrary.pruned_scanOnce walk ⟨⟨x.2, hx, rfl⟩, id⟩
  obtain ⟨hkept, hdeleted⟩ := hpruned.cases hfile
  rw [FileLibrary.mem_missingFiles hfile] at hkept hdeleted
  refine ⟨fun hdisk => hkept fun h => ?_, fun hfaulty hdisk hown hroot => ?_⟩
  · rw [hdisk] at h
    exact Bool.noConfusion h.2.2
  · exact hdeleted ⟨howns hown, hroot, hdisk⟩ hfaulty

/-- **What `scan_once` does to a row.** -/
theorem scanOnce_cases (walk : List WalkedFile) (hx : x ∈ db.files) :
    ((∀ root ∈ prunableRoots env, root.path.isPrefixOf x.2.path = true →
        inExtrasDir env x.2.path root.path = false ∧ env.onDisk x.2.path = true) →
      Kept x (after (scanOnce env walk) db)) ∧
    (¬ env.Faulty → ∀ root ∈ prunableRoots env, root.path.isPrefixOf x.2.path = true →
      inExtrasDir env x.2.path root.path = true ∨ env.onDisk x.2.path = false →
      Deleted x (after (scanOnce env walk) db)) := by
  obtain ⟨db₁, hfile, hpruned | ⟨hfaulty, rfl⟩⟩ : ∃ db₁, db₁.HasFile x.1 x.2.path ∧
      (Pruned env (missingFiles env db₁.files.rows) db₁ (after (scanOnce env walk) db) ∨
        (env.Faulty ∧ db₁ = after (scanOnce env walk) db)) :=
    pruned_scanOnce walk ⟨x.2, hx, rfl⟩
  · obtain ⟨hkept, hdeleted⟩ := hpruned.cases hfile
    rw [mem_missingFiles hfile] at hkept hdeleted
    refine ⟨fun h => hkept ?_, fun hfaulty root hroot hunder hpick => ?_⟩
    · rintro ⟨root, hroot, hunder, hpick⟩
      obtain ⟨hextras, hdisk⟩ := h root hroot hunder
      rw [hextras, hdisk] at hpick
      rcases hpick with hpick | hpick <;> exact Bool.noConfusion hpick
    · exact hdeleted ⟨root, hroot, hunder, hpick⟩ hfaulty
  · exact ⟨fun _ => hfile, fun hnot => absurd hfaulty hnot⟩

/-- **The prunes agree with the walks.** A row whose file is there is kept by every scan, if it is
in no extras folder below a healthy root of `scan_once`, where that is the scan. A row whose file is
gone is deleted by every scan that owns it and has a healthy root above it. -/
theorem prune_agrees (env : ScanEnv) (c : FileRoots) (db : MediaDb) (pass : Pass) (p : Scan Unit)
    (hscan : IsScan env c pass p) (x : ℕ × MediaFile) (hx : x ∈ db.files) :
    (env.onDisk x.2.path = true →
      (pass = .video → ∀ root ∈ prunableRoots env, root.path.isPrefixOf x.2.path = true →
        inExtrasDir env x.2.path root.path = false) →
      Kept x (after p db)) ∧
    ((∀ n, env.fails n = false) → env.onDisk x.2.path = false →
      (∃ root ∈ pass.healthy env c, root.isPrefixOf x.2.path = true) → pass.Owns db x.1 →
      Deleted x (after p db)) := by
  have hfaulty : (∀ n, env.fails n = false) → ¬ env.Faulty := by
    rintro h ⟨n, hn⟩
    rw [h n] at hn
    exact Bool.noConfusion hn
  -- the three libraries of files differ in nothing that matters here
  have hfiles (L : FileLibrary) (roots : List Path) (walk : List DiskFile) :
      (env.onDisk x.2.path = true → (pass = .video → ∀ root ∈ prunableRoots env,
          root.path.isPrefixOf x.2.path = true →
          inExtrasDir env x.2.path root.path = false) →
        Kept x (after (L.scanOnce env roots walk) db)) ∧
      ((∀ n, env.fails n = false) → env.onDisk x.2.path = false →
        (∃ root ∈ healthyRoots env roots, root.isPrefixOf x.2.path = true) → L.Owns db x.1 →
        Deleted x (after (L.scanOnce env roots walk) db)) := by
    obtain ⟨hkept, hdeleted⟩ := L.scanOnce_cases roots walk hx
    exact ⟨fun hdisk _ => hkept hdisk,
      fun hfails hdisk hroot hown => hdeleted (hfaulty hfails) hdisk hown hroot⟩
  cases hscan with
  | video h =>
    obtain ⟨hkept, hdeleted⟩ := scanOnce_cases _ hx
    refine ⟨fun hdisk hextras => hkept fun root hroot hunder => ?_, ?_⟩
    · exact ⟨hextras rfl root hroot hunder, hdisk⟩
    · rintro hfails hdisk ⟨path, hpath, hunder⟩ _
      obtain ⟨root, hroot, rfl⟩ := List.mem_map.mp hpath
      exact hdeleted (hfaulty hfails) root hroot hunder (.inr hdisk)
  | music h => exact hfiles music _ _
  | audiobooks h => exact hfiles audiobooks _ _
  | youtube h => exact hfiles youtube _ _

end agreement

/-! ### A volume of films below the music -/

section volume

def Listed (path : Path) : Prop :=
  path ∈ (walkRoots env).map (·.file.path) ∨
    path ∈ (walkMatchingRoots env c.musicRoots music.matching).map (·.path) ∨
    path ∈ (walkMatchingRoots env c.audiobookRoots audiobooks.matching).map (·.path) ∨
    path ∈ (walkMatchingRoots env c.youtubeRoots youtube.matching).map (·.path)

/-- One scan of each library, as `run_guarded_scan` has them follow each other. -/
def AfterRound (db db' : MediaDb) : Prop :=
  ∃ p₁ p₂ p₃ p₄, IsScan env c .video p₁ ∧ IsScan env c .music p₂ ∧ IsScan env c .audiobooks p₃ ∧
    IsScan env c .youtube p₄ ∧ db' = after p₄ (after p₃ (after p₂ (after p₁ db)))

/-- **No scan deletes the row of a file that some walk lists, and a row under a healthy root whose
file is gone is deleted**, whoever it belongs to. -/
def AllPruned (db : MediaDb) : Prop :=
  (∀ pass p, IsScan env c pass p → ∀ x ∈ db.files, Listed env c x.2.path → Kept x (after p db)) ∧
  ((∀ n, env.fails n = false) → ∀ x ∈ db.files, env.onDisk x.2.path = false →
    (∃ pass : Pass, ∃ root ∈ pass.healthy env c, root.isPrefixOf x.2.path = true) →
    ∀ db', AfterRound env c db db' → Deleted x db')

/-- Films on a volume that is not mounted, below a folder of music that is there. -/
def unmountedFilms : ScanEnv where
  unicode := .ascii
  roots := [⟨["media", "films"], .movies⟩]
  rfc3339 _ := ""
  parseRfc3339 _ := none
  disk := [⟨["media", "song.mp3"], 1, "", some none, true⟩]
  mounted path := path == ["media"]
  tmdb := ⟨fun _ _ => .definitiveMiss, fun _ => .definitiveMiss, fun _ => none,
    fun _ _ _ => .definitiveMiss⟩
  now := 0

def mediaMusic : FileRoots where
  musicRoots := [["media"]]

def film : MediaFile := ⟨["media", "films", "Alien (1979).mkv"], 1, "", some 1080⟩

def filmDb : MediaDb where
  files := (∅ : AutoTable MediaFile).insert film

def song : List DiskFile := [⟨["media", "song.mp3"], 1, "", some none, true⟩]

/-- **A row that no scan owns stays**, below a healthy root and with its file gone. -/
theorem unowned_row_stays : ¬ ∀ (env : ScanEnv) (c : FileRoots) (db : MediaDb),
    AllPruned env c db := by
  intro h
  have hsong : song = walkMatchingRoots unmountedFilms mediaMusic.musicRoots music.matching := by
    decide +kernel
  have hround : AfterRound unmountedFilms mediaMusic filmDb _ :=
    ⟨_, _, _, _, .video (.refl _), .music (.of_eq hsong), .audiobooks (.refl _),
      .youtube (.refl _), rfl⟩
  have hdeleted := (h unmountedFilms mediaMusic filmDb).2 (fun _ => rfl) (1, film)
    (AutoTable.mem_insert.mpr (.inr rfl)) (by decide +kernel)
    ⟨.music, ["media"], by decide +kernel, by decide +kernel⟩ _ hround
  exact hdeleted (1, film) (by rw [AutoTable.mem_def]; decide +kernel) rfl

/-- Once the volume is mounted without it, the film is deleted. -/
theorem prune_agrees_film :
    Deleted (1, film) (after (scanOnce { unmountedFilms with mounted := fun _ => true } [])
      filmDb) := by
  refine (prune_agrees { unmountedFilms with mounted := fun _ => true } mediaMusic filmDb .video _
    (.video (.of_eq (by decide +kernel))) (1, film) (AutoTable.mem_insert.mpr (.inr rfl))).2
    (fun _ => rfl) (by decide +kernel) ⟨["media", "films"], by decide +kernel, by decide +kernel⟩
    trivial

end volume

end EmeraldExchange.MediaCore
