import EmeraldExchange.Lib.BinaryOrder
import EmeraldExchange.Lib.ChildRows
import EmeraldExchange.Recommender.Featurize
import EmeraldExchange.Recommender.Payload

/-!
# Storing a detail

`persist_detail` of `crates/recommender/src/ingest.rs` reads the detail of a title as it was sent,
and writes the row of the title, its genres, its keywords, its cast and its crew in one transaction.
A title that is adult or has few votes is deleted instead, with its vector. Nothing is written of a
payload that is not accepted, or if a statement fails
(`unchanged_of_error`); what is written is what the payload
lists (`listed_of_run`), and of what is deleted nothing is left
(`gone_of_run`).

The rows are written by plain inserts, and their tables are keyed. A payload that lists something
twice is not stored at all, though its fields are accepted
(`persistDetail_of_accepted`).

How SQLite stores a value in a column of some type and how a payload is written as text are given.
-/

namespace EmeraldExchange.Recommender.Persist

open Featurize (Key VecRow FeatureRow encodeVecRowid)
open Payload

/-! ### The tables -/

/-- What a column makes of a value that is not null. -/
inductive Affinity
  | text
  | integer
  | real

/-- A row of `titles`, but for the key. -/
structure TitleRow where
  title : Value
  originalTitle : Arg
  year : Option ℤ
  releaseDate : Arg
  overview : Arg
  posterPath : Arg
  voteAverage : Arg
  voteCount : ℤ
  popularity : Arg
  runtime : Arg
  status : Arg
  originalLanguage : Arg
  adult : Bool
  lastChangedAt : Option String
  fetchedAt : String
  rawJson : String

/-- **The catalog tables**, by their primary keys. -/
structure Db where
  titles : Table Key TitleRow
  titleGenres : Table (Key × ℤ) Unit
  /-- The keyword. -/
  titleKeywords : Table (Key × ℤ) Arg
  /-- The name, and the place in the list. -/
  titleCast : Table (Key × ℤ) (Arg × Arg)
  /-- By person and job; the name. -/
  titleCrew : Table (Key × (ℤ × Value)) Arg
  titleFeatures : Table Key FeatureRow
  /-- By rowid. -/
  titleVec : Table ℤ VecRow

/-! ### The payload -/

/-- **What is written besides the row of the title.** -/
structure Children where
  genres : List ℤ
  keywords : List (ℤ × Arg)
  cast : List (ℤ × Arg × Arg)
  /-- Person, name and job. -/
  crew : List (ℤ × Arg × Arg)
  deriving DecidableEq

/-- The rows of a list that give something. Each must be an object. -/
def entries {α : Type} (read : JsonTree → Except Invalid (Option α)) (rows : List JsonTree) :
    Except Invalid (List α) := do
  let found ← rows.mapM fun row => do
    let _ ← object row
    read row
  pure (found.filterMap id)

def idOf (row : JsonTree) : Option JsonTree :=
  (row.get "id").filter fun v => match v with
    | .null => false
    | _ => true

def genre (row : JsonTree) : Except Invalid (Option ℤ) :=
  match idOf row with
  | none => .ok none
  | some id => do
    let id ← pyInt id
    pure (some id)

def keyword (row : JsonTree) : Except Invalid (Option (ℤ × Arg)) :=
  match idOf row with
  | none => .ok none
  | some id => do
    let id ← pyInt id
    let name ← arg (row.get "name")
    pure (some (id, name))

def castMember (row : JsonTree) : Except Invalid (Option (ℤ × Arg × Arg)) :=
  match idOf row with
  | none => .ok none
  | some id => do
    let id ← pyInt id
    let name ← arg (row.get "name")
    let order ← arg (row.get "order")
    pure (some (id, name, order))

def crewMember (row : JsonTree) : Except Invalid (Option (ℤ × Arg × Arg)) :=
  match (idOf row).filter fun _ => truthy (row.get "job") with
  | none => .ok none
  | some id => do
    let id ← pyInt id
    let name ← arg (row.get "name")
    let job ← arg (row.get "job")
    pure (some (id, name, job))

/-- An object that is there, or an empty one. -/
def block (p : JsonTree) (key : String) : JsonTree :=
  (Payload.or (p.get key) (some (.obj []))).getD (.obj [])

def genreRows (p : JsonTree) : Except Invalid (List JsonTree) := listOrEmpty p "genres"

/-- The keywords of a film are called so, those of a show are called results. -/
def keywordRows (p : JsonTree) : Except Invalid (List JsonTree) := do
  let kwBlock := block p "keywords"
  let _ ← object kwBlock
  list "keywords" (Payload.or (kwBlock.get "keywords") (kwBlock.get "results"))

def credits (p : JsonTree) : Except Invalid JsonTree := do
  let _ ← object (block p "credits")
  pure (block p "credits")

/-- The first twenty, whether they have an identifier or not. -/
def castRows (credits : JsonTree) : Except Invalid (List JsonTree) := do
  let rows ← listOrEmpty credits "cast"
  pure (rows.take 20)

def crewRows (credits : JsonTree) : Except Invalid (List JsonTree) := listOrEmpty credits "crew"

/-- **`children`** -/
def children (p : JsonTree) : Except Invalid Children := do
  let genres ← entries genre (← genreRows p)
  let keywords ← entries keyword (← keywordRows p)
  let credits ← credits p
  let cast ← entries castMember (← castRows credits)
  let crew ← entries crewMember (← crewRows credits)
  pure ⟨genres, keywords, cast, crew⟩

/-- The title of an adult film counts for none. -/
def voteCount (p : JsonTree) (adult : Bool) : Except Invalid ℤ :=
  if adult then .ok 0
  else match (p.get "vote_count").filter truthyValue with
    | none => .ok 0
    | some v => pyInt v

/-- The running time: of a show, the mean of its episodes'. -/
def runtime (kind : Kind) (p : JsonTree) : Except Invalid Arg :=
  match kind with
  | .movie => arg (p.get "runtime")
  | .tv => do
    match ← listOrEmpty p "episode_run_time" with
    | [] => pure none
    | ert =>
      let sum ← ert.foldlM (fun sum v => match v.asNum with
        | some q => .ok (Binary64.add sum (.ofRat q))
        | none => .error (.episodeRunTime v)) (.finite 0)
      pure (some (.int (Binary64.div sum (.finite ert.length)).trunc.toI64))

def minVoteCount : ℤ := 50

/-! ### Statements -/

/-- How a column stores a value, and how a value is written as JSON. -/
structure Format where
  store : Affinity → Value → Value
  json : JsonTree → String

def Format.cell (fmt : Format) (affinity : Affinity) (a : Arg) : Arg := a.map (fmt.store affinity)

/-- A statement, which a constraint may make fail. -/
abbrev Statement := Db → Option Db

/-- **A table of what titles have.** -/
structure Child (κ ν : Type) where
  get : Db → Table (Key × κ) ν
  set : Db → Table (Key × κ) ν → Db

namespace Child

variable {κ ν : Type} [DecidableEq κ] (c : Child κ ν)

/-- `DELETE FROM .. WHERE kind = ? AND tmdb_id = ?` -/
def clear (key : Key) : Statement := fun db => some (c.set db ((c.get db).clearUnder key))

/-- A plain `INSERT`. -/
def insert (key : Key) (r : κ × ν) : Statement := fun db =>
  ((c.get db).insertRow (key, r.1) r.2).map (c.set db)

end Child

def genreTable : Child ℤ Unit := ⟨Db.titleGenres, fun db t => { db with titleGenres := t }⟩

def keywordTable : Child ℤ Arg := ⟨Db.titleKeywords, fun db t => { db with titleKeywords := t }⟩

def castTable : Child ℤ (Arg × Arg) := ⟨Db.titleCast, fun db t => { db with titleCast := t }⟩

def crewTable : Child (ℤ × Value) Arg := ⟨Db.titleCrew, fun db t => { db with titleCrew := t }⟩

section

variable (fmt : Format) (key : Key)

/-- The row of a title is written in place. It must have a title. -/
def upsertTitle (row : Option TitleRow) : Statement := fun db =>
  row.map fun row => { db with titles := db.titles.insert key row }

def insertCrew (c : ℤ × Arg × Arg) : Statement := fun db =>
  (fmt.cell .text c.2.2).bind fun job => crewTable.insert key ((c.1, job), fmt.cell .text c.2.1) db

/-- What is written besides the row of the title. -/
def childStatements (kids : Children) : List Statement :=
  genreTable.clear key :: kids.genres.map (fun g => genreTable.insert key (g, ())) ++
  (keywordTable.clear key ::
    kids.keywords.map (fun k => keywordTable.insert key (k.1, fmt.cell .text k.2))) ++
  (castTable.clear key :: kids.cast.map fun c =>
    castTable.insert key (c.1, fmt.cell .text c.2.1, fmt.cell .integer c.2.2)) ++
  (crewTable.clear key :: kids.crew.map (insertCrew fmt key))

/-- **`delete_title`**, given the rowid of the vector. -/
def deleteStatements (rowid : ℤ) : List Statement :=
  [fun db => some (if (db.titleVec.lookup rowid).any fun v => v.kind = key.kind then
      { db with titleVec := db.titleVec.erase rowid } else db),
    fun db => some { db with titleFeatures := db.titleFeatures.erase key },
    genreTable.clear key, keywordTable.clear key, castTable.clear key, crewTable.clear key,
    fun db => some { db with titles := db.titles.erase key }]

end

/-! ### Transactions -/

inductive Failure
  | database
  /-- The identifier is too large for a rowid. -/
  | rowid
  | invalid (e : Invalid)

/-- The statements and the commit; `fails` says which of them fail for reasons of their own. -/
def exec (fails : ℕ → Bool) : ℕ → List Statement → Db → Option Db
  | i, [], db => if fails i then none else some db
  | i, s :: ss, db => if fails i then none else (s db).bind (exec fails (i + 1) ss)

/-- **A transaction**: all of the statements, or nothing. -/
def transaction (fails : ℕ → Bool) (statements : Except Failure (List Statement)) (result : Bool)
    (db : Db) : Db × Except Failure Bool :=
  if fails 0 then (db, .error .database)
  else match statements with
    | .error e => (db, .error e)
    | .ok ss => match exec fails 1 ss db with
      | none => (db, .error .database)
      | some db' => (db', .ok result)

/-! ### A detail -/

def detailId (p : JsonTree) : Except Invalid ℤ := do
  let _ ← object p
  match p.get "id" with
  | none => .error .noId
  | some v => pyInt v

def release (p : JsonTree) : Option JsonTree :=
  Payload.or (p.get "release_date") (p.get "first_air_date")

def body (kind : Kind) (p : JsonTree) : Except Invalid (Option ℤ × Arg × Children) := do
  let year ← flattenYear (release p)
  let runtime ← runtime kind p
  let kids ← children p
  pure (year, runtime, kids)

def titleRow (fmt : Format) (now : String) (p : JsonTree) (votes : ℤ) (year : Option ℤ)
    (runtime : Arg) : Except Invalid (Option TitleRow) := do
  let title ← arg (Payload.or (Payload.or (p.get "title") (p.get "name")) (some (.str "?")))
  let originalTitle ← arg (Payload.or (p.get "original_title") (p.get "original_name"))
  let releaseDate ← arg (release p)
  let overview ← arg (p.get "overview")
  let posterPath ← arg (p.get "poster_path")
  let voteAverage ← arg (p.get "vote_average")
  let popularity ← arg (p.get "popularity")
  let status ← arg (p.get "status")
  let originalLanguage ← arg (p.get "original_language")
  pure ((fmt.cell .text title).map fun title =>
    { title
      originalTitle := fmt.cell .text originalTitle
      year
      releaseDate := fmt.cell .text releaseDate
      overview := fmt.cell .text overview
      posterPath := fmt.cell .text posterPath
      voteAverage := fmt.cell .real voteAverage
      voteCount := votes
      popularity := fmt.cell .real popularity
      runtime := fmt.cell .integer runtime
      status := fmt.cell .text status
      originalLanguage := fmt.cell .text originalLanguage
      adult := false
      lastChangedAt := none
      fetchedAt := now
      rawJson := fmt.json p })

def deletion (key : Key) : Except Failure (List Statement) :=
  match encodeVecRowid key with
  | none => .error .rowid
  | some rowid => .ok (deleteStatements key rowid)

def writing (fmt : Format) (key : Key) (kids : Children) (row : Except Invalid (Option TitleRow)) :
    Except Failure (List Statement) :=
  (row.mapError .invalid).map fun row => upsertTitle key row :: childStatements fmt key kids

/-- **`persist_detail`** -/
def persistDetail (fmt : Format) (fails : ℕ → Bool) (now : String) (kind : Kind) (p : JsonTree)
    (db : Db) : Db × Except Failure Bool :=
  let adult := truthy (p.get "adult")
  match detailId p, voteCount p adult with
  | .error e, _ | _, .error e => (db, .error (.invalid e))
  | .ok tmdbId, .ok votes =>
    if adult || votes < minVoteCount then
      transaction fails (deletion ⟨kind, tmdbId⟩) false db
    else match body kind p with
      | .error e => (db, .error (.invalid e))
      | .ok (year, runtime, kids) =>
        transaction fails
          (writing fmt ⟨kind, tmdbId⟩ kids (titleRow fmt now p votes year runtime)) true db

/-! ### All or nothing -/

theorem transaction_eq_error {fails : ℕ → Bool} {ss : Except Failure (List Statement)}
    {result : Bool} {db : Db} {e : Failure} (h : (transaction fails ss result db).2 = .error e) :
    (transaction fails ss result db).1 = db := by
  unfold transaction at h ⊢
  by_cases hbegin : fails 0 = true
  · rw [if_pos hbegin]
  rw [if_neg hbegin] at h ⊢
  cases ss with
  | error => rfl
  | ok ss =>
    cases hexec : exec fails 1 ss db with
    | none => simp [hexec]
    | some db' => simp [hexec] at h

theorem transaction_eq_ok {fails : ℕ → Bool} {ss : Except Failure (List Statement)}
    {result b : Bool} {db : Db} (h : (transaction fails ss result db).2 = .ok b) :
    b = result ∧ ∃ l, ss = .ok l ∧ exec fails 1 l db = some (transaction fails ss result db).1 := by
  unfold transaction at h ⊢
  by_cases hbegin : fails 0 = true
  · rw [if_pos hbegin] at h
    cases h
  rw [if_neg hbegin] at h ⊢
  cases ss with
  | error => cases h
  | ok ss =>
    cases hexec : exec fails 1 ss db with
    | none => simp [hexec] at h
    | some db' =>
      simp only [hexec, Except.ok.injEq] at h
      exact ⟨h.symm, ss, rfl, by simp [hexec]⟩

/-- The statements, where only a constraint can make one fail. -/
def run (ss : List Statement) (db : Db) : Option Db := ss.foldlM (fun db s => s db) db

theorem exec_cons (fails : ℕ → Bool) (i : ℕ) (s : Statement) (ss : List Statement) (db : Db) :
    exec fails i (s :: ss) db =
      if fails i then none else (s db).bind (exec fails (i + 1) ss) := rfl

theorem exec_nil (fails : ℕ → Bool) (i : ℕ) (db : Db) :
    exec fails i [] db = if fails i then none else some db := rfl

theorem run_of_exec {fails : ℕ → Bool} {db' : Db} : ∀ {ss : List Statement} {i : ℕ} {db : Db},
    exec fails i ss db = some db' → run ss db = some db'
  | [], i, db, h => by
    rw [exec_nil] at h
    split at h
    · cases h
    · exact h
  | s :: ss, i, db, h => by
    rw [exec_cons] at h
    split at h
    · cases h
    · obtain ⟨db₁, hs, h⟩ := Option.bind_eq_some_iff.mp h
      exact Option.bind_eq_some_iff.mpr ⟨db₁, hs, run_of_exec h⟩

theorem exec_of_forall {fails : ℕ → Bool} (h : ∀ i, fails i = false) :
    ∀ {ss : List Statement} {i : ℕ} {db : Db}, exec fails i ss db = run ss db
  | [], i, db => by rw [exec_nil, h]; rfl
  | s :: ss, i, db => by
    rw [exec_cons, h, if_neg Bool.false_ne_true]
    exact congrArg (s db).bind (funext fun db' => exec_of_forall h)

theorem run_cons (s : Statement) (ss : List Statement) (db : Db) :
    run (s :: ss) db = (s db).bind (run ss) := rfl

theorem run_append (ss ss' : List Statement) (db : Db) :
    run (ss ++ ss') db = (run ss db).bind (run ss') :=
  List.foldlM_append

/-! ### The children of a title -/

namespace Child

variable {κ ν : Type} [DecidableEq κ] {c : Child κ ν}

/-- What is set is read back, and what was set before is not. -/
structure Lawful (c : Child κ ν) : Prop where
  get_set : ∀ db t, c.get (c.set db t) = t
  set_set : ∀ db t t', c.set (c.set db t) t' = c.set db t'

theorem run_inserts (hc : c.Lawful) (key : Key) (db : Db) :
    ∀ (rows : List (κ × ν)) (t : Table (Key × κ) ν), run (rows.map (c.insert key)) (c.set db t) =
      (t.insertRows (rows.map fun r => ((key, r.1), r.2))).map (c.set db)
  | [], t => rfl
  | r :: rows, t => by
    rw [List.map_cons, run_cons, insert, hc.get_set]
    show _ = Option.map _ ((t.insertRow (key, r.1) r.2).bind _)
    cases t.insertRow (key, r.1) r.2 with
    | none => rfl
    | some t' =>
      rw [Option.map_some, Option.bind_some, Option.bind_some, hc.set_set]
      exact run_inserts hc key db rows t'

/-- **The rows of a title are replaced.** -/
theorem Lawful.run_replace (hc : c.Lawful) (key : Key) (rows : List (κ × ν)) (db : Db) :
    run (c.clear key :: rows.map (c.insert key)) db =
      ((c.get db).replaceUnder key rows).map (c.set db) :=
  run_inserts hc key db rows _

end Child

theorem genreTable_lawful : genreTable.Lawful := ⟨fun _ _ => rfl, fun _ _ _ => rfl⟩

theorem keywordTable_lawful : keywordTable.Lawful := ⟨fun _ _ => rfl, fun _ _ _ => rfl⟩

theorem castTable_lawful : castTable.Lawful := ⟨fun _ _ => rfl, fun _ _ _ => rfl⟩

theorem crewTable_lawful : crewTable.Lawful := ⟨fun _ _ => rfl, fun _ _ _ => rfl⟩

/-! ### The rows that are written -/

section

variable {fmt : Format} {key : Key} {kids : Children} {db db' : Db}

def Children.genreCells (kids : Children) : List (ℤ × Unit) := kids.genres.map fun g => (g, ())

def Children.keywordCells (fmt : Format) (kids : Children) : List (ℤ × Arg) :=
  kids.keywords.map fun k => (k.1, fmt.cell .text k.2)

def Children.castCells (fmt : Format) (kids : Children) : List (ℤ × (Arg × Arg)) :=
  kids.cast.map fun c => (c.1, fmt.cell .text c.2.1, fmt.cell .integer c.2.2)

def Children.crewCells (fmt : Format) (kids : Children) : List ((ℤ × Value) × Arg) :=
  kids.crew.filterMap fun c =>
    (fmt.cell .text c.2.2).map fun job => ((c.1, job), fmt.cell .text c.2.1)

def Children.Jobs (kids : Children) : Prop := ∀ c ∈ kids.crew, c.2.2.isSome = true

theorem map_insertCrew : ∀ {crew : List (ℤ × Arg × Arg)}, (∀ c ∈ crew, c.2.2.isSome = true) →
    crew.map (insertCrew fmt key) = (crew.filterMap fun c =>
      (fmt.cell .text c.2.2).map fun job => ((c.1, job), fmt.cell .text c.2.1)).map
        (crewTable.insert key)
  | [], _ => rfl
  | c :: crew, h => by
    obtain ⟨job, hjob⟩ := Option.isSome_iff_exists.mp (h c List.mem_cons_self)
    have hcell : fmt.cell .text c.2.2 = some (fmt.store .text job) := by
      rw [hjob, Format.cell, Option.map_some]
    have hinsert : insertCrew fmt key c =
        crewTable.insert key ((c.1, fmt.store .text job), fmt.cell .text c.2.1) := by
      funext db
      rw [insertCrew, hcell, Option.bind_some]
    rw [List.map_cons, List.filterMap_cons_some (b := ((c.1, fmt.store .text job), _))
      (by rw [hcell, Option.map_some]), List.map_cons, hinsert,
      map_insertCrew fun c' hc' => h c' (List.mem_cons_of_mem _ hc')]

/-- **The children are replaced, table by table.** -/
theorem run_childStatements (hjobs : kids.Jobs) : run (childStatements fmt key kids) db =
    (db.titleGenres.replaceUnder key kids.genreCells).bind fun g =>
    (db.titleKeywords.replaceUnder key (kids.keywordCells fmt)).bind fun k =>
    (db.titleCast.replaceUnder key (kids.castCells fmt)).bind fun c =>
    (db.titleCrew.replaceUnder key (kids.crewCells fmt)).map fun w =>
      { db with titleGenres := g, titleKeywords := k, titleCast := c, titleCrew := w } := by
  have hgenres : kids.genres.map (fun g => genreTable.insert key (g, ())) =
      kids.genreCells.map (genreTable.insert key) := by
    show _ = (kids.genres.map fun g => (g, ())).map (genreTable.insert key)
    rw [List.map_map]
    rfl
  have hkeywords : kids.keywords.map (fun k =>
      keywordTable.insert key (k.1, fmt.cell .text k.2)) =
      (kids.keywordCells fmt).map (keywordTable.insert key) := by
    show _ = (kids.keywords.map fun k => (k.1, fmt.cell .text k.2)).map _
    rw [List.map_map]
    rfl
  have hcast : kids.cast.map (fun c =>
      castTable.insert key (c.1, fmt.cell .text c.2.1, fmt.cell .integer c.2.2)) =
      (kids.castCells fmt).map (castTable.insert key) := by
    show _ = (kids.cast.map fun c =>
      (c.1, fmt.cell .text c.2.1, fmt.cell .integer c.2.2)).map _
    rw [List.map_map]
    rfl
  rw [childStatements, hgenres, hkeywords, hcast, map_insertCrew hjobs, run_append, run_append,
    run_append, genreTable_lawful.run_replace]
  show (((Option.map _ (db.titleGenres.replaceUnder key kids.genreCells)).bind _).bind _).bind _ = _
  cases db.titleGenres.replaceUnder key kids.genreCells with
  | none => rfl
  | some g =>
    rw [Option.map_some, Option.bind_some, Option.bind_some, keywordTable_lawful.run_replace]
    show ((Option.map _ (db.titleKeywords.replaceUnder key _)).bind _).bind _ = _
    cases db.titleKeywords.replaceUnder key (kids.keywordCells fmt) with
    | none => rfl
    | some k =>
      rw [Option.map_some, Option.bind_some, Option.bind_some, castTable_lawful.run_replace]
      show (Option.map _ (db.titleCast.replaceUnder key _)).bind _ = _
      cases db.titleCast.replaceUnder key (kids.castCells fmt) with
      | none => rfl
      | some c =>
        rw [Option.map_some, Option.bind_some, Option.bind_some]
        exact crewTable_lawful.run_replace key (kids.crewCells fmt) _

/-- **No two rows of one key.** A job is compared as it is stored. -/
structure Children.Distinct (fmt : Format) (kids : Children) : Prop where
  genres : kids.genres.Nodup
  keywords : (kids.keywords.map Prod.fst).Nodup
  cast : (kids.cast.map Prod.fst).Nodup
  crew : (kids.crew.map fun c => (c.1, fmt.cell .text c.2.2)).Nodup

theorem map_crewCells : ∀ {crew : List (ℤ × Arg × Arg)}, (∀ c ∈ crew, c.2.2.isSome = true) →
    (crew.map fun c => (c.1, fmt.cell .text c.2.2)) =
      ((crew.filterMap fun c => (fmt.cell .text c.2.2).map fun job =>
        ((c.1, job), fmt.cell .text c.2.1)).map Prod.fst).map fun k => (k.1, some k.2)
  | [], _ => rfl
  | c :: crew, h => by
    obtain ⟨job, hjob⟩ := Option.isSome_iff_exists.mp (h c List.mem_cons_self)
    have hcell : fmt.cell .text c.2.2 = some (fmt.store .text job) := by
      rw [hjob, Format.cell, Option.map_some]
    rw [List.map_cons, List.filterMap_cons_some (b := ((c.1, fmt.store .text job), _))
      (by rw [hcell, Option.map_some]), List.map_cons, List.map_cons, hcell,
      map_crewCells fun c' hc' => h c' (List.mem_cons_of_mem _ hc')]

variable (key db) in
/-- **The children are written exactly if no two rows have one key.** -/
theorem isSome_run_childStatements (hjobs : kids.Jobs) :
    (run (childStatements fmt key kids) db).isSome = true ↔ kids.Distinct fmt := by
  have hgenres : (kids.genreCells.map Prod.fst) = kids.genres :=
    List.map_map.trans (List.map_id _)
  have hkeywords : (kids.keywordCells fmt).map Prod.fst = kids.keywords.map Prod.fst :=
    List.map_map
  have hcast : (kids.castCells fmt).map Prod.fst = kids.cast.map Prod.fst :=
    List.map_map
  have hcrew : (kids.crew.map fun c => (c.1, fmt.cell .text c.2.2)).Nodup ↔
      ((kids.crewCells fmt).map Prod.fst).Nodup := by
    rw [map_crewCells hjobs, List.nodup_map_iff]
    · rfl
    · intro k k' heq
      obtain ⟨hperson, hjob⟩ := Prod.mk.inj heq
      exact Prod.ext hperson (Option.some.inj hjob)
  rw [run_childStatements hjobs]
  constructor
  · intro h
    obtain ⟨db', h⟩ := Option.isSome_iff_exists.mp h
    obtain ⟨g, hg, h⟩ := Option.bind_eq_some_iff.mp h
    obtain ⟨k, hk, h⟩ := Option.bind_eq_some_iff.mp h
    obtain ⟨c, hc, h⟩ := Option.bind_eq_some_iff.mp h
    obtain ⟨w, hw, -⟩ := Option.map_eq_some_iff.mp h
    constructor
    · exact hgenres ▸ Table.isSome_replaceUnder.mp (Option.isSome_of_mem hg)
    · exact hkeywords ▸ Table.isSome_replaceUnder.mp (Option.isSome_of_mem hk)
    · exact hcast ▸ Table.isSome_replaceUnder.mp (Option.isSome_of_mem hc)
    · exact hcrew.mpr (Table.isSome_replaceUnder.mp (Option.isSome_of_mem hw))
  · intro h
    obtain ⟨g, hg⟩ := Option.isSome_iff_exists.mp
      (Table.isSome_replaceUnder (p := key) (t := db.titleGenres).mpr (hgenres.symm ▸ h.genres))
    obtain ⟨k, hk⟩ := Option.isSome_iff_exists.mp (Table.isSome_replaceUnder (p := key)
      (t := db.titleKeywords).mpr (hkeywords.symm ▸ h.keywords))
    obtain ⟨c, hc⟩ := Option.isSome_iff_exists.mp
      (Table.isSome_replaceUnder (p := key) (t := db.titleCast).mpr (hcast.symm ▸ h.cast))
    obtain ⟨w, hw⟩ := Option.isSome_iff_exists.mp
      (Table.isSome_replaceUnder (p := key) (t := db.titleCrew).mpr (hcrew.mp h.crew))
    rw [hg, hk, hc, hw]
    rfl

/-! ### What the payload lists -/

theorem bind_eq_ok {ε α β : Type} {x : Except ε α} {f : α → Except ε β} {b : β} :
    (x >>= f) = .ok b ↔ ∃ a, x = .ok a ∧ f a = .ok b := by
  cases x with
  | error e => simp [bind, Except.bind]
  | ok a => simp [bind, Except.bind]

/-- **What is read of a list is what its rows give.** -/
theorem mem_entries {α : Type} {read : JsonTree → Except Invalid (Option α)} {a : α} :
    ∀ {rows : List JsonTree} {found : List α}, entries read rows = .ok found →
      (a ∈ found ↔ ∃ row ∈ rows, read row = .ok (some a))
  | [], found, h => by
    obtain rfl := Except.ok.inj h
    simp
  | row :: rows, found, h => by
    obtain ⟨all, hall, h⟩ := bind_eq_ok.mp h
    obtain rfl := Except.ok.inj h
    rw [List.mapM_cons] at hall
    obtain ⟨first, hfirst, hall⟩ := bind_eq_ok.mp hall
    obtain ⟨rest, hrest, hall⟩ := bind_eq_ok.mp hall
    obtain rfl := Except.ok.inj hall
    obtain ⟨-, -, hread⟩ := bind_eq_ok.mp hfirst
    have hrows : entries read rows = .ok (rest.filterMap id) := by
      rw [entries, hrest]
      rfl
    simp only [List.mem_cons, exists_eq_or_imp, ← mem_entries hrows, hread]
    cases first with
    | none => simp
    | some b => simp [eq_comm]

/-- **The tables hold what the payload lists**, and nothing else of the title. -/
structure Listed (fmt : Format) (p : JsonTree) (key : Key) (db : Db) : Prop where
  genres : ∃ rows, genreRows p = .ok rows ∧ ∀ g,
    db.titleGenres.lookup (key, g) = some () ↔ ∃ row ∈ rows, genre row = .ok (some g)
  keywords : ∃ rows, keywordRows p = .ok rows ∧ ∀ k word,
    db.titleKeywords.lookup (key, k) = some word ↔
      ∃ row ∈ rows, ∃ name, keyword row = .ok (some (k, name)) ∧ word = fmt.cell .text name
  cast : ∃ rows, (credits p >>= castRows) = .ok rows ∧ ∀ person held,
    db.titleCast.lookup (key, person) = some held ↔ ∃ row ∈ rows, ∃ name order,
      castMember row = .ok (some (person, name, order)) ∧
        held = (fmt.cell .text name, fmt.cell .integer order)
  crew : ∃ rows, (credits p >>= crewRows) = .ok rows ∧ ∀ person job held,
    db.titleCrew.lookup (key, (person, job)) = some held ↔ ∃ row ∈ rows, ∃ name job',
      crewMember row = .ok (some (person, name, job')) ∧ fmt.cell .text job' = some job ∧
        held = fmt.cell .text name

theorem children_eq_ok {p : JsonTree} (h : children p = .ok kids) :
    (∃ rows, genreRows p = .ok rows ∧ entries genre rows = .ok kids.genres) ∧
    (∃ rows, keywordRows p = .ok rows ∧ entries keyword rows = .ok kids.keywords) ∧
    (∃ rows, (credits p >>= castRows) = .ok rows ∧ entries castMember rows = .ok kids.cast) ∧
    ∃ rows, (credits p >>= crewRows) = .ok rows ∧ entries crewMember rows = .ok kids.crew := by
  obtain ⟨rows₁, h₁, h⟩ := bind_eq_ok.mp h
  obtain ⟨genres, hgenres, h⟩ := bind_eq_ok.mp h
  obtain ⟨rows₂, h₂, h⟩ := bind_eq_ok.mp h
  obtain ⟨keywords, hkeywords, h⟩ := bind_eq_ok.mp h
  obtain ⟨c, hc, h⟩ := bind_eq_ok.mp h
  obtain ⟨rows₃, h₃, h⟩ := bind_eq_ok.mp h
  obtain ⟨cast, hcast, h⟩ := bind_eq_ok.mp h
  obtain ⟨rows₄, h₄, h⟩ := bind_eq_ok.mp h
  obtain ⟨crew, hcrew, h⟩ := bind_eq_ok.mp h
  obtain rfl := Except.ok.inj h
  exact ⟨⟨rows₁, h₁, hgenres⟩, ⟨rows₂, h₂, hkeywords⟩,
    ⟨rows₃, bind_eq_ok.mpr ⟨c, hc, h₃⟩, hcast⟩, ⟨rows₄, bind_eq_ok.mpr ⟨c, hc, h₄⟩, hcrew⟩⟩

/-- **Every row of the crew has a job.** -/
theorem jobs_of_children {p : JsonTree} (h : children p = .ok kids) : kids.Jobs := by
  intro c hc
  obtain ⟨-, -, -, rows, -, hrows⟩ := children_eq_ok h
  obtain ⟨row, -, hrow⟩ := (mem_entries hrows).mp hc
  rw [crewMember] at hrow
  split at hrow
  · cases hrow
  · next id hid =>
    obtain ⟨person, -, hrow⟩ := bind_eq_ok.mp hrow
    obtain ⟨name, -, hrow⟩ := bind_eq_ok.mp hrow
    obtain ⟨job, hjob, hrow⟩ := bind_eq_ok.mp hrow
    obtain rfl := Option.some.inj (Except.ok.inj hrow)
    exact isSome_of_arg (Option.filter_eq_some_iff.mp hid).2 hjob

/-- **What is written is what the payload lists.** -/
theorem listed_of_run {p : JsonTree} (hkids : children p = .ok kids)
    (h : run (childStatements fmt key kids) db = some db') : Listed fmt p key db' := by
  rw [run_childStatements (jobs_of_children hkids)] at h
  obtain ⟨g, hg, h⟩ := Option.bind_eq_some_iff.mp h
  obtain ⟨k, hk, h⟩ := Option.bind_eq_some_iff.mp h
  obtain ⟨c, hc, h⟩ := Option.bind_eq_some_iff.mp h
  obtain ⟨w, hw, rfl⟩ := Option.map_eq_some_iff.mp h
  obtain ⟨⟨rows₁, h₁, hgenres⟩, ⟨rows₂, h₂, hkeywords⟩, ⟨rows₃, h₃, hcast⟩, rows₄, h₄, hcrew⟩ :=
    children_eq_ok hkids
  constructor
  · refine ⟨rows₁, h₁, fun id => ?_⟩
    rw [Table.lookup_replaceUnder hg, ← mem_entries hgenres]
    exact List.mem_map.trans (by simp)
  · refine ⟨rows₂, h₂, fun id word => ?_⟩
    rw [Table.lookup_replaceUnder hk]
    refine List.mem_map.trans ⟨?_, ?_⟩
    · rintro ⟨⟨id', name⟩, hmem, heq⟩
      obtain ⟨rfl, rfl⟩ := Prod.mk.inj heq
      obtain ⟨row, hrow, hread⟩ := (mem_entries hkeywords).mp hmem
      exact ⟨row, hrow, name, hread, rfl⟩
    · rintro ⟨row, hrow, name, hread, rfl⟩
      exact ⟨(id, name), (mem_entries hkeywords).mpr ⟨row, hrow, hread⟩, rfl⟩
  · refine ⟨rows₃, h₃, fun person held => ?_⟩
    rw [Table.lookup_replaceUnder hc]
    refine List.mem_map.trans ⟨?_, ?_⟩
    · rintro ⟨⟨person', name, order⟩, hmem, heq⟩
      obtain ⟨rfl, rfl⟩ := Prod.mk.inj heq
      obtain ⟨row, hrow, hread⟩ := (mem_entries hcast).mp hmem
      exact ⟨row, hrow, name, order, hread, rfl⟩
    · rintro ⟨row, hrow, name, order, hread, rfl⟩
      exact ⟨(person, name, order), (mem_entries hcast).mpr ⟨row, hrow, hread⟩, rfl⟩
  · refine ⟨rows₄, h₄, fun person job held => ?_⟩
    rw [Table.lookup_replaceUnder hw]
    refine List.mem_filterMap.trans ⟨?_, ?_⟩
    · rintro ⟨⟨person', name, job'⟩, hmem, heq⟩
      obtain ⟨job'', hjob, heq⟩ := Option.map_eq_some_iff.mp heq
      obtain ⟨hkey, rfl⟩ := Prod.mk.inj heq
      obtain ⟨rfl, rfl⟩ := Prod.mk.inj hkey
      obtain ⟨row, hrow, hread⟩ := (mem_entries hcrew).mp hmem
      exact ⟨row, hrow, name, job', hread, hjob, rfl⟩
    · rintro ⟨row, hrow, name, job', hread, hjob, rfl⟩
      exact ⟨(person, name, job'), (mem_entries hcrew).mpr ⟨row, hrow, hread⟩,
        Option.map_eq_some_iff.mpr ⟨job, hjob, rfl⟩⟩

/-! ### What is deleted -/

/-- **Nothing is left of a title**, nor of its vector. -/
structure Gone (key : Key) (db : Db) : Prop where
  titles : db.titles.lookup key = none
  genres : ∀ g, db.titleGenres.lookup (key, g) = none
  keywords : ∀ k, db.titleKeywords.lookup (key, k) = none
  cast : ∀ person, db.titleCast.lookup (key, person) = none
  crew : ∀ person, db.titleCrew.lookup (key, person) = none
  features : db.titleFeatures.lookup key = none
  vec : ∃ rowid, encodeVecRowid key = some rowid ∧
    ∀ v, db.titleVec.lookup rowid = some v → v.kind ≠ key.kind

theorem kind_ne_of_deleteVec {rowid : ℤ} {v : VecRow}
    (h : (if (db.titleVec.lookup rowid).any fun v => v.kind = key.kind then
      { db with titleVec := db.titleVec.erase rowid } else db : Db).titleVec.lookup rowid =
        some v) : v.kind ≠ key.kind := by
  split at h
  · rw [AList.lookup_erase] at h
    cases h
  · next hkind =>
    intro heq
    rw [h] at hkind
    exact hkind (decide_eq_true heq)

theorem gone_of_run {rowid : ℤ} (hrowid : encodeVecRowid key = some rowid)
    (h : run (deleteStatements key rowid) db = some db') : Gone key db' := by
  obtain rfl := Option.some.inj h
  have hclear : ∀ {κ ν : Type} [DecidableEq κ] (t : Table (Key × κ) ν) (k : κ),
      (t.clearUnder key).lookup (key, k) = none := by
    intro κ ν _ t k
    rw [Table.lookup_clearUnder, if_pos rfl]
  constructor
  · exact AList.lookup_erase _ _
  · exact fun g => hclear _ g
  · exact fun k => hclear _ k
  · exact fun person => hclear _ person
  · exact fun person => hclear _ person
  · exact AList.lookup_erase _ _
  · exact ⟨rowid, hrowid, fun v hv => kind_ne_of_deleteVec hv⟩

end

/-! ### Every detail -/

section

variable {fmt : Format} {fails : ℕ → Bool} {now : String} {kind : Kind} {p : JsonTree} {db : Db}
  {kids : Children}

/-- **The detail is accepted**: its fields are of the types that are read, it is not adult and not
under the floor. -/
structure Accepted (fmt : Format) (now : String) (kind : Kind) (p : JsonTree) (kids : Children) :
    Prop where
  adult : truthy (p.get "adult") = false
  id : ∃ tmdbId, detailId p = .ok tmdbId
  written : ∃ votes year runtime row, voteCount p false = .ok votes ∧ minVoteCount ≤ votes ∧
    body kind p = .ok (year, runtime, kids) ∧ titleRow fmt now p votes year runtime = .ok row

theorem isSome_of_titleRow {votes : ℤ} {year : Option ℤ} {runtime : Arg} {row : Option TitleRow}
    (h : titleRow fmt now p votes year runtime = .ok row) : row.isSome = true := by
  obtain ⟨title, htitle, hrest⟩ := bind_eq_ok.mp h
  have htrue : truthy (Payload.or (Payload.or (p.get "title") (p.get "name")) (some (.str "?"))) =
      true := by
    rw [Payload.or]
    split
    · assumption
    · rfl
  obtain ⟨v, rfl⟩ := Option.isSome_iff_exists.mp (isSome_of_arg htrue htitle)
  simp only [bind_eq_ok] at hrest
  obtain ⟨_, -, _, -, _, -, _, -, _, -, _, -, _, -, _, -, hrest⟩ := hrest
  obtain rfl := Except.ok.inj hrest
  rfl

theorem children_of_body {year : Option ℤ} {runtime : Arg}
    (h : body kind p = .ok (year, runtime, kids)) : children p = .ok kids := by
  obtain ⟨_, -, h⟩ := bind_eq_ok.mp h
  obtain ⟨_, -, h⟩ := bind_eq_ok.mp h
  obtain ⟨kids', hkids, h⟩ := bind_eq_ok.mp h
  cases Except.ok.inj h
  exact hkids

theorem persistDetail_cases (fmt : Format) (fails : ℕ → Bool) (now : String) (kind : Kind)
    (p : JsonTree) (db : Db) :
    (∃ e, persistDetail fmt fails now kind p db = (db, .error e)) ∨
    (∃ tmdbId, detailId p = .ok tmdbId ∧ persistDetail fmt fails now kind p db =
      transaction fails (deletion ⟨kind, tmdbId⟩) false db) ∨
    ∃ tmdbId kids row, detailId p = .ok tmdbId ∧ children p = .ok kids ∧
      persistDetail fmt fails now kind p db =
        transaction fails (writing fmt ⟨kind, tmdbId⟩ kids row) true db := by
  rw [persistDetail]
  cases hid : detailId p with
  | error e => exact .inl ⟨_, rfl⟩
  | ok tmdbId =>
    cases hvotes : voteCount p (truthy (p.get "adult")) with
    | error e => exact .inl ⟨_, rfl⟩
    | ok votes =>
      simp only
      by_cases hskip : (truthy (p.get "adult") || decide (votes < minVoteCount)) = true
      · rw [if_pos hskip]
        exact .inr (.inl ⟨tmdbId, rfl, rfl⟩)
      · rw [if_neg hskip]
        cases hbody : body kind p with
        | error e => exact .inl ⟨_, rfl⟩
        | ok b =>
          obtain ⟨year, runtime, kids⟩ := b
          exact .inr (.inr ⟨tmdbId, kids, _, rfl, children_of_body hbody, rfl⟩)

/-- **What is accepted is stored**, unless two of its rows have one key. -/
theorem persistDetail_of_accepted (h : Accepted fmt now kind p kids)
    (hfails : ∀ i, fails i = false) :
    (∃ e, (persistDetail fmt fails now kind p db).2 = .error e) ↔ ¬ kids.Distinct fmt := by
  obtain ⟨tmdbId, hid⟩ := h.id
  obtain ⟨votes, year, runtime, row, hvotes, hfloor, hbody, hrow⟩ := h.written
  have hskip : ¬ (false || decide (votes < minVoteCount)) = true := by simpa using hfloor
  obtain ⟨row, rfl⟩ := Option.isSome_iff_exists.mp (isSome_of_titleRow hrow)
  have hwriting : writing fmt ⟨kind, tmdbId⟩ kids (titleRow fmt now p votes year runtime) =
      .ok (upsertTitle ⟨kind, tmdbId⟩ (some row) :: childStatements fmt ⟨kind, tmdbId⟩ kids) := by
    rw [hrow]
    rfl
  have hout : persistDetail fmt fails now kind p db = transaction fails
      (.ok (upsertTitle ⟨kind, tmdbId⟩ (some row) :: childStatements fmt ⟨kind, tmdbId⟩ kids))
      true db := by
    rw [persistDetail, h.adult, hid, hvotes]
    simp only [if_neg hskip, hbody]
    rw [hwriting]
  rw [hout, transaction, hfails, if_neg Bool.false_ne_true,
    ← isSome_run_childStatements ⟨kind, tmdbId⟩
      { db with titles := db.titles.insert ⟨kind, tmdbId⟩ row }
      (jobs_of_children (children_of_body hbody))]
  simp only [exec_of_forall hfails, run_cons, upsertTitle, Option.map_some, Option.bind_some]
  cases run (childStatements fmt ⟨kind, tmdbId⟩ kids) _ with
  | none => simp
  | some db' => simp

theorem unchanged_of_error {e : Failure}
    (h : (persistDetail fmt fails now kind p db).2 = .error e) :
    (persistDetail fmt fails now kind p db).1 = db := by
  rcases persistDetail_cases fmt fails now kind p db with ⟨e', heq⟩ | ⟨tmdbId, -, heq⟩ |
    ⟨tmdbId, kids, row, -, -, heq⟩
  · rw [heq]
  · rw [heq] at h ⊢
    exact transaction_eq_error h
  · rw [heq] at h ⊢
    exact transaction_eq_error h

theorem listed_of_ok (h : (persistDetail fmt fails now kind p db).2 = .ok true) :
    ∃ tmdbId, detailId p = .ok tmdbId ∧
      Listed fmt p ⟨kind, tmdbId⟩ (persistDetail fmt fails now kind p db).1 := by
  rcases persistDetail_cases fmt fails now kind p db with ⟨e', heq⟩ | ⟨tmdbId, -, heq⟩ |
    ⟨tmdbId, kids, row, hid, hkids, heq⟩
  · rw [heq] at h
    cases h
  · rw [heq] at h
    cases (transaction_eq_ok h).1
  · rw [heq] at h ⊢
    obtain ⟨-, l, hl, hexec⟩ := transaction_eq_ok h
    cases row with
    | error e => cases hl
    | ok row =>
      obtain rfl := Except.ok.inj hl
      have hrun := run_of_exec hexec
      rw [run_cons] at hrun
      obtain ⟨db₁, -, hrun⟩ := Option.bind_eq_some_iff.mp hrun
      exact ⟨tmdbId, hid, listed_of_run hkids hrun⟩

theorem gone_of_ok (h : (persistDetail fmt fails now kind p db).2 = .ok false) :
    ∃ tmdbId, detailId p = .ok tmdbId ∧
      Gone ⟨kind, tmdbId⟩ (persistDetail fmt fails now kind p db).1 := by
  rcases persistDetail_cases fmt fails now kind p db with ⟨e', heq⟩ | ⟨tmdbId, hid, heq⟩ |
    ⟨tmdbId, kids, row, -, -, heq⟩
  · rw [heq] at h
    cases h
  · rw [heq] at h ⊢
    obtain ⟨-, l, hl, hexec⟩ := transaction_eq_ok h
    rw [deletion] at hl
    split at hl
    · cases hl
    · next rowid hrowid =>
      obtain rfl := Except.ok.inj hl
      exact ⟨tmdbId, hid, gone_of_run hrowid (run_of_exec hexec)⟩
  · rw [heq] at h
    cases (transaction_eq_ok h).1

end

/-- **Storing a detail is all or nothing, and exact**; and a payload that is accepted is stored
exactly if no two of its rows have one key. -/
theorem persistDetail_exact (fmt : Format) (fails : ℕ → Bool) (now : String) (kind : Kind)
    (p : JsonTree) (db : Db) :
    let out := persistDetail fmt fails now kind p db
    (∀ e, out.2 = .error e → out.1 = db) ∧
    (out.2 = .ok true → ∃ tmdbId, detailId p = .ok tmdbId ∧
      Listed fmt p ⟨kind, tmdbId⟩ out.1) ∧
    (out.2 = .ok false → ∃ tmdbId, detailId p = .ok tmdbId ∧ Gone ⟨kind, tmdbId⟩ out.1) ∧
    ∀ kids, Accepted fmt now kind p kids → (∀ i, fails i = false) →
      ((∃ e, out.2 = .error e) ↔ ¬ kids.Distinct fmt) :=
  ⟨fun _ => unchanged_of_error, listed_of_ok, gone_of_ok, fun _ => persistDetail_of_accepted⟩

/-- Integers become texts in a column of texts; the payload of the example is written so. -/
def plain : Format where
  store affinity v := match affinity, v with
    | .text, .int z => .text (toString z)
    | _, v => v
  json _ := "\x7b\"genres\":[\x7b\"id\":28\x7d],\"id\":550,\"vote_count\":100\x7d"

def filmOf (genres : List JsonTree) : JsonTree :=
  .obj [("genres", .arr genres), ("id", .int 550), ("vote_count", .int 100)]

def action : JsonTree := .obj [("id", .int 28)]

theorem eq_ok_of_toOption {ε α : Type} {x : Except ε α} {a : α} (h : x.toOption = some a) :
    x = .ok a := by
  cases x with
  | error e => cases h
  | ok b => exact congrArg _ (Option.some.inj h)

theorem evaluated :
    (persistDetail plain (fun _ => false) "2024-01-10T00:00:00+00:00" .movie (filmOf [action])
      ⟨∅, ∅, ∅, ∅, ∅, ∅, ∅⟩).2.toOption = some true ∧
    (voteCount (filmOf [action, action]) false).toOption = some 100 := by
  decide +kernel

theorem persistDetail_exact_once : ∃ tmdbId, detailId (filmOf [action]) = .ok tmdbId ∧
    Listed plain (filmOf [action]) ⟨.movie, tmdbId⟩ (persistDetail plain (fun _ => false)
      "2024-01-10T00:00:00+00:00" .movie (filmOf [action]) ⟨∅, ∅, ∅, ∅, ∅, ∅, ∅⟩).1 :=
  (persistDetail_exact plain (fun _ => false) "2024-01-10T00:00:00+00:00" .movie (filmOf [action])
    ⟨∅, ∅, ∅, ∅, ∅, ∅, ∅⟩).2.1 (eq_ok_of_toOption evaluated.1)

/-- **A genre that is listed twice keeps the film out.** -/
theorem persistDetail_twice : ∃ kids,
    Accepted plain "2024-01-10T00:00:00+00:00" .movie (filmOf [action, action]) kids ∧
    ∃ e, (persistDetail plain (fun _ => false) "2024-01-10T00:00:00+00:00" .movie
      (filmOf [action, action]) ⟨∅, ∅, ∅, ∅, ∅, ∅, ∅⟩).2 = .error e := by
  have haccepted : Accepted plain "2024-01-10T00:00:00+00:00" .movie (filmOf [action, action])
      ⟨[28, 28], [], [], []⟩ := by
    obtain ⟨row, hrow⟩ : ∃ row, titleRow plain "2024-01-10T00:00:00+00:00"
        (filmOf [action, action]) 100 none none = .ok row := by
      have hsome : (titleRow plain "2024-01-10T00:00:00+00:00" (filmOf [action, action]) 100 none
          none).toOption.isSome = true := by rfl
      obtain ⟨row, hrow⟩ := Option.isSome_iff_exists.mp hsome
      exact ⟨row, eq_ok_of_toOption hrow⟩
    exact ⟨by rfl, ⟨550, eq_ok_of_toOption (by rfl)⟩, 100, none, none, row,
      eq_ok_of_toOption evaluated.2, by decide, eq_ok_of_toOption (by rfl),
      hrow⟩
  exact ⟨_, haccepted, (persistDetail_of_accepted haccepted fun _ => rfl).mpr
    fun hdistinct => absurd hdistinct.genres (by decide)⟩

end EmeraldExchange.Recommender.Persist
