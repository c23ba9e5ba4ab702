import EmeraldExchange.Lib.Asking
import EmeraldExchange.MediaCore.ScanSteps

/-!
# The requests of a scan

The functions of `crates/media-core/src/scanner.rs` that have TMDB asked, once more, each with the
requests it sends where it sends them. All else is as it is in `scanOnce`,
which is what is left of a scan if the requests are left away
(`Requests.erase_scanOnce`).

A request is one call of the client, which has a key. The client sends one or more of its own for
it, and none at all for an episode with the number 0: it knows that there is no such episode.
-/

namespace EmeraldExchange.MediaCore

open Program

inductive Question
  | movie (title : String) (year : Option ℕ)
  | movieContentRating (tmdbId : ℤ)
  | show' (title : String)
  | episode (tmdbId : ℤ) (season episode : ℕ)
  deriving DecidableEq

/-- `episode_lookupable`; everything else is. -/
def Question.lookupable : Question → Bool
  | .episode _ _ number => 1 ≤ number
  | _ => true

abbrev Requests := Asking Scanning Question

namespace Requests

def told {α : Type} (p : Scan α) : Requests α := .lift p

def ask (q : Question) : Requests Unit := if q.lookupable then .send q else pure ()

def logged {α : Type} (p : Requests α) : Requests Unit := fun s => ((some (), (p s).1.2), (p s).2)

/-- A program that goes on where its first part fails, with nothing to do. -/
def recover {α : Type} (p : Scan α) (f : α → Requests Unit) : Requests Unit := fun s =>
  match p s with
  | (none, t) => ((some (), t), [])
  | (some a, t) => f a t

/-! ### The functions of the scan -/

variable (env : ScanEnv)

/-- The question for an episode, of a show that is found and where it is due. -/
def askEpisode (m : Option TmdbMatch) (due : Bool) (season episode : ℕ) : Requests Unit :=
  match m, due with
  | some found, true => ask (.episode found.tmdbId season episode)
  | _, _ => pure ()

/-- **`index_file`** -/
def indexFile (file : DiskFile) (height : Option ℤ) (parsed : ParsedName) : Requests Unit := do
  let fileId ← told (upsertMediaFile env file height)
  match parsed with
  | .movie title year => do
    ask (.movie title year)
    told (upsertMovie env fileId (env.tmdb.matchMovie title year).found?)
  | .episode show' season episode => do
    ask (.show' show')
    let m := env.tmdb.matchShow show'
    let showId ← told (upsertShow env show' m)
    let due ← told (episodeLookupDue env showId season episode)
    askEpisode m due season episode
    told do
      let ep := match m, due with
        | some found, true => env.tmdb.episode found.tmdbId season episode
        | _, _ => .transient
      upsertEpisode env showId season episode fileId ep.found?
      match ep with
      | .definitiveMiss => recordEpisodeLookupFailure env showId season episode
      | _ => pure ()
  | .unknown => pure ()

def backfillMovie (fileId : ℕ) (title : String) (year : Option ℕ) : Requests Unit := do
  let row ← told (select env fun db => db.movies.find? fun m => m.fileId = fileId)
  let ofFile : ℕ × Movie → Bool := fun x => x.2.fileId = fileId
  match row.bind fun x => x.2.tmdbId.map fun tmdbId => (tmdbId, x.2) with
  | some (tmdbId, m) =>
    if m.contentRating.isSome ∨ !shouldAttemptEpisodeLookup env false m.rating then pure ()
    else do
      ask (.movieContentRating tmdbId)
      told (match env.tmdb.movieContentRating tmdbId with
        | .found r =>
          execute env fun db => some { db with
            movies := db.movies.update ofFile fun m => { m with contentRating := some r } }
        | .definitiveMiss =>
          execute env fun db => some { db with
            movies := db.movies.update ofFile fun m => { m with rating := m.rating.record env } }
        | .transient => pure ())
  | none =>
    let misses := (row.map fun x => x.2.matching).getD {}
    if !shouldAttemptEpisodeLookup env false misses then pure ()
    else do
      ask (.movie title year)
      told (match env.tmdb.matchMovie title year with
        | .found m => upsertMovie env fileId (some m)
        | .definitiveMiss =>
          execute env fun db => some { db with
            movies := db.movies.update ofFile fun m => { m with
              matching := m.matching.record env } }
        | .transient => pure ())

def backfillEpisode (fileId : ℕ) (show' : String) (season episode : ℕ) : Requests Unit := do
  match ← told (select env (storedShowMatch env show')) with
  | some (showId, tmdbId) =>
    if ← told (episodeLookupDue env showId season episode) then do
      ask (.episode tmdbId season episode)
      told (applyEpisodeBackfill env showId season episode fileId
        (env.tmdb.episode tmdbId season episode))
    else pure ()
  | none => do
    ask (.show' show')
    let m := env.tmdb.matchShow show'
    let showId ← told (upsertShow env show' m)
    if ← told (episodeLookupDue env showId season episode) then do
      askEpisode m true season episode
      told (applyEpisodeBackfill env showId season episode fileId
        (match m with
          | some found => env.tmdb.episode found.tmdbId season episode
          | none => .transient))
    else pure ()

/-- **`backfill_metadata`** -/
def backfillMetadata (path : Path) (parsed : ParsedName) : Requests Unit := do
  match ← told (select env fun db => (db.fileRow path).map Prod.fst) with
  | none => pure ()
  | some fileId =>
    match parsed with
    | .movie title year => backfillMovie env fileId title year
    | .episode show' season episode => backfillEpisode env fileId show' season episode
    | .unknown => pure ()

def scanChanged (w : WalkedFile) : Requests Unit := do
  let file := w.file
  if ← told (probeLookupDue env file.path file.sizeBytes file.mtime) then
    match file.probe with
    | none => told (recordProbeFailure env file.path file.sizeBytes file.mtime)
    | some height => do
      told (clearProbeFailure env file.path)
      logged (indexFile env file height (w.parsed env))
  else pure ()

/-- **One file of the walk** -/
def scanFile (w : WalkedFile) : Requests Unit :=
  recover (select env (MediaDb.fileRow w.file.path)) fun row =>
    if row.any fun x => w.file.unchanged x.2 then
      logged (backfillMetadata env w.file.path (w.parsed env))
    else scanChanged env w

def scanFiles : List WalkedFile → Requests Unit
  | [] => pure ()
  | w :: ws => do
    scanFile env w
    scanFiles ws

/-- **`scan_once`**, in the order of a walk. -/
def scanOnce (walk : List WalkedFile) : Requests Unit := do
  scanFiles env walk
  told (reconcile env)

/-! ### Without the requests -/

variable {env : ScanEnv} {α β : Type}

@[simp] theorem erase_told (p : Scan α) : (told p).erase = p := rfl

@[simp] theorem erase_ask (q : Question) : (ask q).erase = pure () := by
  rw [ask]
  split <;> rfl

@[simp] theorem erase_askEpisode {m : Option TmdbMatch} {due : Bool} {season episode : ℕ} :
    (askEpisode m due season episode).erase = pure () := by
  unfold askEpisode
  split
  · exact erase_ask _
  · rfl

@[simp] theorem erase_logged (p : Requests α) :
    (logged p).erase = MediaCore.logged p.erase := rfl

@[simp] theorem erase_recover (p : Scan α) (f : α → Requests Unit) :
    (recover p f).erase = MediaCore.recover p fun a => (f a).erase := by
  funext s
  rw [Asking.erase, recover, MediaCore.recover]
  rcases p s with ⟨_ | a, t⟩ <;> rfl

@[simp] theorem pure_unit_bind (f : Unit → Scan β) : (pure () >>= f : Scan β) = f () := rfl

theorem erase_indexFile (file : DiskFile) (height : Option ℤ) (parsed : ParsedName) :
    (indexFile env file height parsed).erase = MediaCore.indexFile env file height parsed := by
  rw [indexFile, MediaCore.indexFile, Asking.erase_bind]
  congr 1
  funext fileId
  rcases parsed with ⟨title, year⟩ | ⟨show', season, episode⟩ | _
  · simp only [Asking.erase_bind, erase_ask, erase_told, pure_unit_bind]
  · simp only [Asking.erase_bind, erase_ask, erase_askEpisode, erase_told, pure_unit_bind]
    all_goals rfl
  · rfl

theorem erase_backfillMovie (fileId : ℕ) (title : String) (year : Option ℕ) :
    (backfillMovie env fileId title year).erase =
      MediaCore.backfillMovie env fileId title year := by
  rw [backfillMovie, MediaCore.backfillMovie, Asking.erase_bind]
  congr 1
  funext row
  rcases row.bind fun x => x.2.tmdbId.map fun tmdbId => (tmdbId, x.2) with _ | ⟨tmdbId, m⟩
  · simp only [Asking.erase_ite, Asking.erase_bind, erase_ask, erase_told, pure_unit_bind]
    rfl
  · simp only [Asking.erase_ite, Asking.erase_bind, erase_ask, erase_told, pure_unit_bind]
    rfl

theorem erase_backfillEpisode (fileId : ℕ) (title : String) (season episode : ℕ) :
    (backfillEpisode env fileId title season episode).erase =
      MediaCore.backfillEpisode env fileId title season episode := by
  rw [backfillEpisode, MediaCore.backfillEpisode, Asking.erase_bind]
  congr 1
  funext found
  split
  · simp only [Asking.erase_ite, Asking.erase_bind, erase_ask, erase_told, pure_unit_bind]
    rfl
  · simp only [Asking.erase_ite, Asking.erase_bind, erase_ask, erase_askEpisode, erase_told,
      pure_unit_bind]
    rfl

theorem erase_backfillMetadata (path : Path) (parsed : ParsedName) :
    (backfillMetadata env path parsed).erase = MediaCore.backfillMetadata env path parsed := by
  rw [backfillMetadata, MediaCore.backfillMetadata, Asking.erase_bind]
  congr 1
  funext row
  rcases row with _ | fileId
  · rfl
  · rcases parsed with ⟨title, year⟩ | ⟨show', season, episode⟩ | _
    · exact erase_backfillMovie fileId title year
    · exact erase_backfillEpisode fileId show' season episode
    · rfl

theorem erase_scanFile (w : WalkedFile) : (scanFile env w).erase = MediaCore.scanFile env w := by
  rw [scanFile, MediaCore.scanFile, erase_recover]
  congr 1
  funext row
  rw [Asking.erase_ite, erase_logged, erase_backfillMetadata]
  congr 1
  rw [scanChanged, MediaCore.scanChanged, Asking.erase_bind]
  congr 1
  funext due
  rw [Asking.erase_ite]
  congr 1
  rcases w.file.probe with _ | height
  · rfl
  · rw [Asking.erase_bind, erase_logged, erase_indexFile]
    rfl

theorem erase_scanFiles : ∀ walk : List WalkedFile,
    (scanFiles env walk).erase = MediaCore.scanFiles env walk
  | [] => rfl
  | w :: walk => by
    rw [scanFiles, MediaCore.scanFiles, Asking.erase_bind, erase_scanFile]
    congr 1
    funext _
    exact erase_scanFiles walk

/-- **What is left of a scan without its requests** is the scan. -/
theorem erase_scanOnce (walk : List WalkedFile) :
    (scanOnce env walk).erase = MediaCore.scanOnce env walk := by
  rw [scanOnce, MediaCore.scanOnce, Asking.erase_bind, erase_scanFiles]
  rfl

/-! ### Parts that send nothing -/

section rules

variable {p : Requests α} {f : α → Requests β} {db : MediaDb} {Q : α → MediaDb → Prop}
  {R : β → MediaDb → Prop} {E : MediaDb → Prop}

/-- **A part sends nothing**, and ends as a part without requests may end. -/
def Silently (p : Requests α) (Q : α → MediaDb → Prop) (E : MediaDb → Prop) (db : MediaDb) : Prop :=
  ∀ n, p.Silent (fun a s => Q a s.db) (fun s => E s.db) ⟨db, n⟩

theorem silently_told {p : Scan α} (h : Ends p Q E db) : Silently (told p) Q E db :=
  fun n => Asking.silent_lift (h n)

theorem silently_pure {a : α} (h : Q a db) : Silently (pure a) Q E db :=
  silently_told (ends_pure h)

theorem Silently.mono {Q' : α → MediaDb → Prop} {E' : MediaDb → Prop} (h : Silently p Q E db)
    (hQ : ∀ a db', Q a db' → Q' a db') (hE : ∀ db', E db' → E' db') : Silently p Q' E' db :=
  fun n => ⟨(h n).1, (h n).2.mono (fun a s => hQ a s.db) fun s => hE s.db⟩

theorem silently_bind (h : Silently p (fun a => Silently (f a) R E) E db) :
    Silently (p >>= f) R E db := by
  intro n
  obtain ⟨hsent, hwp⟩ := h n
  exact Asking.silent_bind ⟨hsent, hwp.mono (fun a s hs => hs s.statements) fun _ hs => hs⟩

theorem silently_ask {q : Question} {Q : Unit → MediaDb → Prop} (hq : q.lookupable = false)
    (h : Q () db) : Silently (ask q) Q E db := by
  rw [ask, hq]
  exact silently_pure h

theorem silently_ite {c : Prop} [Decidable c] {q : Requests α} (hp : c → Silently p Q E db)
    (hq : ¬ c → Silently q Q E db) : Silently (if c then p else q) Q E db := by
  by_cases h : c
  · rw [if_pos h]
    exact hp h
  · rw [if_neg h]
    exact hq h

theorem silently_logged {Q : Unit → MediaDb → Prop}
    (h : Silently p (fun _ => Q ()) (Q ()) db) : Silently (logged p) Q E db :=
  fun n => ⟨(h n).1, ends_logged (E := E) (fun n => (h n).2) n⟩

theorem silently_recover {p : Scan α} {f : α → Requests Unit} {Q : Unit → MediaDb → Prop}
    (h : Ends p (fun a => Silently (f a) Q E) (Q ()) db) : Silently (recover p f) Q E db := by
  intro n
  have hn := h n
  rw [Asking.Silent, erase_recover, Asking.sent]
  simp only [Wp, recover, MediaCore.recover] at hn ⊢
  rcases hp : p ⟨db, n⟩ with ⟨_ | a, s⟩
  · rw [hp] at hn
    exact ⟨rfl, hn⟩
  · rw [hp] at hn
    exact hn s.statements

theorem Silently.ends (h : Silently p Q E db) : Ends p.erase Q E db := fun n => (h n).2

/-! ### Parts that send something -/

/-- **A part sends something**, whatever the number of its first statement. -/
def Sends (p : Requests α) (db : MediaDb) : Prop := ∀ n, p.sent ⟨db, n⟩ ≠ []

theorem sends_ask {q : Question} (hq : q.lookupable = true) : Sends (ask q) db := by
  intro n
  rw [ask, if_pos hq]
  exact List.cons_ne_nil _ _

theorem sends_bind_left (h : Sends p db) : Sends (p >>= f) db :=
  fun n => Asking.sent_bind_left (h n)

theorem sends_told_bind {p : Scan α} {f : α → Requests β}
    (h : Ends p (fun a => Sends (f a)) (fun _ => False) db) : Sends (told p >>= f) db :=
  fun n => Asking.sent_bind_right ((h n).mono (fun _ s hs => hs s.statements) fun _ hs => hs)

theorem sends_logged (h : Sends p db) : Sends (logged p) db := h

theorem sends_recover {p : Scan α} {f : α → Requests Unit}
    (h : Ends p (fun a => Sends (f a)) (fun _ => False) db) : Sends (recover p f) db := by
  intro n
  have hn := h n
  rw [Asking.sent, recover]
  rw [Wp] at hn
  rcases hp : p ⟨db, n⟩ with ⟨_ | a, s⟩
  · rw [hp] at hn
    exact hn.elim
  · rw [hp] at hn
    exact hn s.statements

end rules

end Requests

end EmeraldExchange.MediaCore
