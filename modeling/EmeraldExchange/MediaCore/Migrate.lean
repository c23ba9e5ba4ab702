import EmeraldExchange.Lib.Runs
import EmeraldExchange.Lib.Utf8
import Mathlib.Data.List.Basic
import Mathlib.Logic.Function.Basic

/-!
# The migrator

`migrate` in `crates/media-core/src/db.rs` brings a database up to a list of embedded migrations.
It keeps a ledger, the table `schema_migrations`, and everything it does is separate statements:
the ledger is created, its highest version is read, its rows are read and their checksums compared,
and then every migration above that version is applied and recorded in a transaction of its own.

Any number of processes do so at once, each with the migrations up to some point, and any of them
may fail or stop between two statements. What a transaction wrote is seen when it is committed. In every such run the ledger is a
beginning of the list and the schema is what its migrations make
(`ledgerCorrect_of_runs`). Versions have to be above zero, for
zero is what stands for an empty ledger
(`not_ledgerCorrect_zero`).
-/

namespace EmeraldExchange.MediaCore.Migrate

/-! ### The database -/

structure Migration where
  version : ℤ
  name : String
  sql : String
  deriving DecidableEq

/-- A row of `schema_migrations`. -/
structure LedgerRow where
  version : ℤ
  appliedAt : String
  checksum : String
  deriving DecidableEq

/-- A database: its schema, and the ledger once that is created. -/
structure Database (σ : Type*) where
  schema : σ
  ledger : Option (List LedgerRow)

def Database.rows {σ : Type*} (db : Database σ) : List LedgerRow := db.ledger.getD []

/-- `COALESCE(MAX(version), 0)` -/
def maxVersion (rows : List LedgerRow) : ℤ := (rows.map (·.version)).max?.getD 0

/-- `UPDATE schema_migrations SET checksum = ? WHERE version = ?` -/
def Database.setChecksum {σ : Type*} (db : Database σ) (checksum : String) (version : ℤ) :
    Database σ :=
  { db with ledger := db.ledger.map fun rows => rows.map fun row =>
      if row.version = version then { row with checksum := checksum } else row }

/-- The insertion of a row: a version is there once. -/
def Database.insertRow {σ : Type*} (db : Database σ) (row : LedgerRow) : Option (Database σ) :=
  db.ledger.bind fun rows =>
    if rows.any fun r => r.version = row.version then none
    else some { db with ledger := some (rows ++ [row]) }

/-! ### Checksums -/

/-- Without the carriage returns at line ends. -/
def normalize : List Char → List Char
  | '\r' :: '\n' :: cs => '\n' :: normalize cs
  | c :: cs => c :: normalize cs
  | [] => []

def hexByte (b : UInt8) : List Char := (Nat.toDigits 16 b.toNat).leftpad 2 '0'

variable {σ : Type*} (run : String → σ → Option σ) (digest : List UInt8 → List UInt8)

def checksum (sql : String) : String :=
  String.ofList ((digest (Utf8.encode (normalize sql.toList))).flatMap hexByte)

/-! ### One process -/

inductive Failure
  | database
  | configuration (text : String)
  deriving DecidableEq

/-- What the operator is told of a migration whose text has changed. -/
def mismatch (m : Migration) (stored embedded : String) : Failure :=
  .configuration (s!"migration checksum mismatch on applied migration {m.version} ({m.name}): " ++
    "the embedded SQL no longer matches what was applied to this database " ++
    s!"(stored {stored}, embedded {embedded}). Restore the original " ++
    "migration, or set ALLOW_MIGRATION_CHECKSUM_MISMATCH=1 for a " ++
    "deliberate repair.")

/-- **Where a process stands**: what it has read, the migrations it has still to look at, and in a
transaction what that has written. -/
inductive Stage (σ : Type*)
  | create
  | readCurrent
  | readApplied (current : ℤ)
  | verify (current : ℤ) (applied : List LedgerRow) (rest : List Migration)
  | apply (current : ℤ) (rest : List Migration)
  | begun (current : ℤ) (m : Migration) (rest : List Migration)
  | executed (current : ℤ) (m : Migration) (rest : List Migration) (tx : Database σ)
  | inserted (current : ℤ) (m : Migration) (rest : List Migration) (tx : Database σ)
  | returned (result : Except Failure Unit)

def Stage.isReturned : Stage σ → Bool
  | .returned _ => true
  | _ => false

def Stage.writes : Stage σ → Bool
  | .executed .. | .inserted .. => true
  | _ => false

/-- A call of `migrate`. -/
structure Process (σ : Type*) where
  migrations : List Migration
  allowChecksumMismatch : Bool
  stage : Stage σ

/-- One migration against the ledger as it was read. -/
def Process.check (p : Process σ) (free : Bool) (db : Database σ) (current : ℤ)
    (applied : List LedgerRow) (m : Migration) (rest : List Migration) :
    Option (Database σ × Stage σ) :=
  match applied.find? fun row => row.version = m.version with
  | none => some (db, .verify current applied rest)
  | some row =>
    let expected := checksum digest m.sql
    if row.checksum = "" then
      -- a row written before the ledger kept checksums
      if free then some (db.setChecksum expected m.version, .verify current applied rest) else none
    else if row.checksum ≠ expected ∧ ¬p.allowChecksumMismatch then
      some (db, .returned (.error (mismatch m row.checksum expected)))
    else some (db, .verify current applied rest)

/-- **The next statement of a process**, `free` telling whether no other one has a write open. It
waits for that where it has to. -/
def Process.next (now : String) (free : Bool) (db : Database σ) (p : Process σ) :
    Option (Database σ × Stage σ) :=
  match p.stage with
  | .create =>
    match db.ledger with
    | some _ => some (db, .readCurrent)
    | none => if free then some ({ db with ledger := some [] }, .readCurrent) else none
  | .readCurrent =>
    match db.ledger with
    | some rows => some (db, .readApplied (maxVersion rows))
    | none => some (db, .returned (.error .database))
  | .readApplied current =>
    match db.ledger with
    | some rows => some (db, .verify current rows p.migrations)
    | none => some (db, .returned (.error .database))
  | .verify current _ [] => some (db, .apply current p.migrations)
  | .verify current applied (m :: rest) => p.check digest free db current applied m rest
  | .apply _ [] => some (db, .returned (.ok ()))
  | .apply current (m :: rest) =>
    if m.version > current then some (db, .begun current m rest) else some (db, .apply current rest)
  | .begun current m rest =>
    if free then
      match run m.sql db.schema with
      | some schema => some (db, .executed current m rest { db with schema := schema })
      | none => some (db, .returned (.error .database))
    else none
  | .executed current m rest tx =>
    match tx.insertRow ⟨m.version, now, checksum digest m.sql⟩ with
    | some tx => some (db, .inserted current m rest tx)
    | none => some (db, .returned (.error .database))
  | .inserted current _ rest tx => some (tx, .apply current rest)
  | .returned _ => none

/-! ### All processes -/

/-- **The database and the processes**, and the one with a write open. -/
structure World (σ : Type*) where
  db : Database σ
  writer : Option ℕ
  procs : ℕ → Option (Process σ)

def World.new (schema : σ) : World σ := ⟨⟨schema, none⟩, none, fun _ => none⟩

/-- A process stands elsewhere. Its write is open, or it is not any more. -/
def World.move (w : World σ) (pid : ℕ) (p : Process σ) (stage : Stage σ) : World σ where
  db := w.db
  writer := if stage.writes then some pid else if w.writer = some pid then none else w.writer
  procs := Function.update w.procs pid (some { p with stage := stage })

/-- What happens: a process begins with the first `k` migrations, executes its next statement,
fails at it, or stops. -/
inductive Act
  | start (pid k : ℕ) (allow : Bool)
  | statement (pid : ℕ) (now : String)
  | fail (pid : ℕ)
  | crash (pid : ℕ)

/-- **One step**, of a system that has the migrations `L`. -/
def World.step (L : List Migration) (w : World σ) : Act → Option (World σ)
  | .start pid k allow =>
    match w.procs pid with
    | none => some (w.move pid ⟨L.take k, allow, .create⟩ .create)
    | some _ => none
  | .statement pid now =>
    (w.procs pid).bind fun p =>
      (p.next run digest now (w.writer = none) w.db).map fun d =>
        { w.move pid p d.2 with db := d.1 }
  | .fail pid =>
    (w.procs pid).bind fun p =>
      if p.stage.isReturned then none else some (w.move pid p (.returned (.error .database)))
  | .crash pid =>
    (w.procs pid).map fun p =>
      { w.move pid p (.returned (.error .database)) with procs := Function.update w.procs pid none }

/-! ### What a database was made by -/

/-- The schema that migrations make, one after the other. -/
def schemaOf (schema : σ) (L : List Migration) : Option σ :=
  L.foldlM (fun s m => run m.sql s) schema

/-- **A database is what some migrations make of an empty one**, and its ledger has each of them
once, in order, with its checksum. -/
structure MadeBy (schema : σ) (L : List Migration) (db : Database σ) : Prop where
  schema : schemaOf run schema L = some db.schema
  ledger : db.rows.map (fun r => (r.version, r.checksum)) =
    L.map fun m => (m.version, checksum digest m.sql)

variable {run digest} {schema : σ} {L : List Migration} {db : Database σ}

theorem MadeBy.versions (h : MadeBy run digest schema L db) :
    db.rows.map (·.version) = L.map (·.version) := by
  have := congrArg (List.map Prod.fst) h.ledger
  simpa [Function.comp_def] using this

theorem MadeBy.checksum_eq {done : List Migration} (h : MadeBy run digest schema done db)
    (hdone : done ⊆ L) (hasc : (L.map (·.version)).Pairwise (· < ·)) {m : Migration} (hm : m ∈ L)
    {row : LedgerRow} (hrow : row ∈ db.rows) (heq : row.version = m.version) :
    row.checksum = checksum digest m.sql := by
  have hmem : (row.version, row.checksum) ∈
      done.map fun m => (m.version, checksum digest m.sql) := by
    rw [← h.ledger]
    exact List.mem_map_of_mem hrow
  obtain ⟨m', hm', hpair⟩ := List.mem_map.mp hmem
  obtain ⟨hversion, hchecksum⟩ := Prod.mk.inj hpair
  have hinj := List.inj_on_of_nodup_map (hasc.imp fun h => h.ne)
  rw [← hchecksum, hinj (hdone hm') hm (hversion.trans heq)]

theorem MadeBy.setChecksum {done : List Migration} (h : MadeBy run digest schema done db)
    (hdone : done ⊆ L) (hasc : (L.map (·.version)).Pairwise (· < ·)) {m : Migration}
    (hm : m ∈ L) :
    MadeBy run digest schema done (db.setChecksum (checksum digest m.sql) m.version) := by
  refine ⟨h.schema, ?_⟩
  have hrows : (db.setChecksum (checksum digest m.sql) m.version).rows =
      db.rows.map fun row =>
        if row.version = m.version then { row with checksum := checksum digest m.sql }
        else row := by
    rw [Database.rows, Database.rows, Database.setChecksum]
    cases db.ledger <;> rfl
  rw [hrows, ← h.ledger, List.map_map]
  refine List.map_congr_left fun row hrow => ?_
  rw [Function.comp_apply]
  split
  · next heq => rw [h.checksum_eq hdone hasc hm hrow heq]
  · rfl

/-- **One migration more.** -/
theorem MadeBy.insertRow (h : MadeBy run digest schema L db) {m : Migration} {schema' : σ}
    (hrun : run m.sql db.schema = some schema') {now : String} {db' : Database σ}
    (hinsert : ({ db with schema := schema' } : Database σ).insertRow
      ⟨m.version, now, checksum digest m.sql⟩ = some db') :
    MadeBy run digest schema (L ++ [m]) db' ∧ m.version ∉ L.map (·.version) := by
  obtain ⟨rows, hrows, hnew⟩ := Option.bind_eq_some_iff.mp hinsert
  split at hnew
  · cases hnew
  next hnot =>
  obtain rfl := Option.some.inj hnew
  have heq : db.rows = rows := by rw [Database.rows, show db.ledger = some rows from hrows]; rfl
  refine ⟨⟨?_, ?_⟩, ?_⟩
  · rw [schemaOf, List.foldlM_append, show L.foldlM _ schema = some db.schema from h.schema]
    simpa using hrun
  · rw [List.map_append, ← h.ledger, heq, Database.rows]
    simp
  · rw [← h.versions, heq]
    intro hmem
    obtain ⟨row, hrow, hversion⟩ := List.mem_map.mp hmem
    exact hnot (List.any_eq_true.mpr ⟨row, hrow, decide_eq_true hversion⟩)

/-! ### What a process relies on -/

/-- No version up to `c` is missing from the first `n` migrations. -/
def Covers (L : List Migration) (n : ℕ) (c : ℤ) : Prop :=
  ∀ done m rest, L = done ++ m :: rest → m.version ≤ c → done.length < n

theorem Covers.mono {n n' : ℕ} {c : ℤ} (h : Covers L n c) (hle : n ≤ n') : Covers L n' c :=
  fun done m rest hL hc => (h done m rest hL hc).trans_le hle

/-- **What is read is covered**: the versions ascend, and those above an empty ledger are above
zero. -/
theorem MadeBy.covers {n : ℕ} (h : MadeBy run digest schema (L.take n) db)
    (hpos : ∀ m ∈ L, 0 < m.version) (hasc : (L.map (·.version)).Pairwise (· < ·)) :
    Covers L n (maxVersion db.rows) := by
  rintro done m rest hL hle
  rw [maxVersion, h.versions] at hle
  by_contra hge
  -- the migrations that are there come before this one
  have htake : L.take n <+: done := by
    rw [hL, List.take_append_of_le_length (by omega)]
    exact List.take_prefix n done
  have hlt : ∀ v ∈ (L.take n).map (·.version), v < m.version := by
    rintro v hv
    obtain ⟨m', hm', rfl⟩ := List.mem_map.mp hv
    rw [hL, List.map_append, List.pairwise_append] at hasc
    exact hasc.2.2 _ (List.mem_map_of_mem (htake.subset hm')) _ (by simp)
  cases hmax : ((L.take n).map (·.version)).max? with
  | none =>
    rw [hmax] at hle
    exact absurd (hpos m (by rw [hL]; simp)) (not_lt.mpr hle)
  | some v =>
    rw [hmax] at hle
    exact absurd (hlt v (List.max?_mem hmax)) (not_lt.mpr hle)

variable (run digest) in
/-- **What holds of a process**: the migrations it has done with are among those that are there. In
a transaction, these are all that are there. -/
def Stage.Sound (schema : σ) (L : List Migration) (db : Database σ) (n : ℕ)
    (ms : List Migration) : Stage σ → Prop
  | .create => True
  | .readCurrent => True
  | .readApplied c => Covers L n c
  | .verify c _ rest => Covers L n c ∧ rest ⊆ L
  | .apply c rest => Covers L n c ∧ ∃ done, ms = done ++ rest ∧ done.length ≤ n
  | .begun c m rest => Covers L n c ∧ ∃ done, ms = done ++ m :: rest ∧ done.length ≤ n
  | .executed c m rest tx => (Covers L n c ∧ ∃ done, ms = done ++ m :: rest ∧ done.length ≤ n) ∧
    tx.ledger = db.ledger ∧ run m.sql db.schema = some tx.schema
  | .inserted c m rest tx => (Covers L n c ∧ ∃ done, ms = done ++ m :: rest ∧ done.length = n) ∧
    MadeBy run digest schema (L.take (n + 1)) tx
  | .returned result => result = .ok () → ms.length ≤ n

theorem Stage.Sound.mono {db' : Database σ} {n n' : ℕ} {ms : List Migration} {stage : Stage σ}
    (h : stage.Sound run digest schema L db n ms) (hwrites : stage.writes = false) (hle : n ≤ n') :
    stage.Sound run digest schema L db' n' ms := by
  cases stage with
  | create => trivial
  | readCurrent => trivial
  | readApplied c => exact Covers.mono h hle
  | verify c applied rest => exact ⟨h.1.mono hle, h.2⟩
  | apply c rest =>
    obtain ⟨hcovers, done, hms, hlen⟩ := h
    exact ⟨hcovers.mono hle, done, hms, hlen.trans hle⟩
  | begun c m rest =>
    obtain ⟨hcovers, done, hms, hlen⟩ := h
    exact ⟨hcovers.mono hle, done, hms, hlen.trans hle⟩
  | executed c m rest tx => cases hwrites
  | inserted c m rest tx => cases hwrites
  | returned result => exact fun hok => (h hok).trans hle

theorem Process.check_spec {p : Process σ} {free : Bool} {current : ℤ}
    {applied : List LedgerRow} {m : Migration} {rest : List Migration} {d : Database σ × Stage σ}
    (h : p.check digest free db current applied m rest = some d) :
    (d.1 = db ∨ free = true ∧ d.1 = db.setChecksum (checksum digest m.sql) m.version) ∧
      (d.2 = .verify current applied rest ∨ ∃ e, d.2 = .returned (.error e)) := by
  rw [Process.check] at h
  split at h
  · obtain rfl := Option.some.inj h
    exact ⟨.inl rfl, .inl rfl⟩
  · dsimp only at h
    split at h
    · obtain ⟨hfree, h⟩ := Option.ite_none_right_eq_some.mp h
      obtain rfl := Option.some.inj h
      exact ⟨.inr ⟨hfree, rfl⟩, .inl rfl⟩
    · split at h
      · obtain rfl := Option.some.inj h
        exact ⟨.inl rfl, .inr ⟨_, rfl⟩⟩
      · obtain rfl := Option.some.inj h
        exact ⟨.inl rfl, .inl rfl⟩

/-- **What one statement does.** The database stays what some migrations make; it changes only
where nobody else has a write open; and the process goes on as it should. -/
theorem Process.next_spec (hpos : ∀ m ∈ L, 0 < m.version)
    (hasc : (L.map (·.version)).Pairwise (· < ·)) {p : Process σ} (hms : p.migrations <+: L)
    {n : ℕ} (hn : n ≤ L.length) (hmade : MadeBy run digest schema (L.take n) db)
    (hsound : p.stage.Sound run digest schema L db n p.migrations) {now : String} {free : Bool}
    {d : Database σ × Stage σ} (h : p.next run digest now free db = some d) :
    (d.2.writes = true → free = true ∨ p.stage.writes = true) ∧
      ∃ n', n ≤ n' ∧ n' ≤ L.length ∧ (d.1 = db ∧ n' = n ∨ free = true ∨ p.stage.writes = true) ∧
        MadeBy run digest schema (L.take n') d.1 ∧
        d.2.Sound run digest schema L d.1 n' p.migrations := by
  obtain ⟨ms, allow, stage⟩ := p
  dsimp only at hms hsound
  rw [Process.next.eq_def] at h
  dsimp only at h ⊢
  cases stage with
  | create =>
    dsimp only at h
    split at h
    · obtain rfl := Option.some.inj h
      exact ⟨by simp [Stage.writes], n, le_rfl, hn, .inl ⟨rfl, rfl⟩, hmade, trivial⟩
    · next hnone =>
      obtain ⟨hfree, h⟩ := Option.ite_none_right_eq_some.mp h
      obtain rfl := Option.some.inj h
      refine ⟨by simp [Stage.writes], n, le_rfl, hn, .inr (.inl hfree), ?_, trivial⟩
      have hrows : db.rows = [] := by rw [Database.rows, hnone]; rfl
      exact ⟨hmade.schema, by rw [← hmade.ledger, hrows]; rfl⟩
  | readCurrent =>
    dsimp only at h
    split at h
    · next rows hrows =>
      obtain rfl := Option.some.inj h
      have hcovers := hmade.covers hpos hasc
      rw [Database.rows, hrows] at hcovers
      exact ⟨by simp [Stage.writes], n, le_rfl, hn, .inl ⟨rfl, rfl⟩, hmade, hcovers⟩
    · obtain rfl := Option.some.inj h
      exact ⟨by simp [Stage.writes], n, le_rfl, hn, .inl ⟨rfl, rfl⟩, hmade,
        by simp [Stage.Sound]⟩
  | readApplied c =>
    dsimp only at h
    split at h
    · obtain rfl := Option.some.inj h
      exact ⟨by simp [Stage.writes], n, le_rfl, hn, .inl ⟨rfl, rfl⟩, hmade, hsound,
        hms.subset⟩
    · obtain rfl := Option.some.inj h
      exact ⟨by simp [Stage.writes], n, le_rfl, hn, .inl ⟨rfl, rfl⟩, hmade,
        by simp [Stage.Sound]⟩
  | verify c applied rest =>
    obtain ⟨hcovers, hrest⟩ := hsound
    cases rest with
    | nil =>
      obtain rfl := Option.some.inj h
      exact ⟨by simp [Stage.writes], n, le_rfl, hn, .inl ⟨rfl, rfl⟩, hmade, hcovers, [],
        rfl, Nat.zero_le n⟩
    | cons m rest =>
      obtain ⟨hdb, hstage⟩ := Process.check_spec h
      have hsound' : d.2.Sound run digest schema L d.1 n ms := by
        rcases hstage with hstage | ⟨e, hstage⟩
        · rw [hstage]
          exact ⟨hcovers, (List.cons_subset.mp hrest).2⟩
        · rw [hstage]
          rintro ⟨⟩
      have hwrites : d.2.writes = false := by
        rcases hstage with hstage | ⟨e, hstage⟩ <;> rw [hstage] <;> rfl
      refine ⟨by simp [hwrites], n, le_rfl, hn, ?_, ?_, hsound'⟩
      · rcases hdb with hdb | ⟨hfree, -⟩
        · exact .inl ⟨hdb, rfl⟩
        · exact .inr (.inl hfree)
      · rcases hdb with hdb | ⟨-, hdb⟩
        · rwa [hdb]
        · rw [hdb]
          exact hmade.setChecksum (List.take_subset n L) hasc (hrest List.mem_cons_self)
  | apply c rest =>
    obtain ⟨hcovers, done, rfl, hlen⟩ := hsound
    cases rest with
    | nil =>
      obtain rfl := Option.some.inj h
      exact ⟨by simp [Stage.writes], n, le_rfl, hn, .inl ⟨rfl, rfl⟩, hmade,
        fun _ => by simpa using hlen⟩
    | cons m rest =>
      dsimp only at h
      split at h
      · obtain rfl := Option.some.inj h
        exact ⟨by simp [Stage.writes], n, le_rfl, hn, .inl ⟨rfl, rfl⟩, hmade, hcovers, done,
          rfl, hlen⟩
      · next hle =>
        obtain rfl := Option.some.inj h
        -- what is skipped is there already
        obtain ⟨more, hmore⟩ := hms
        have hlt := hcovers done m (rest ++ more) (by simp [← hmore]) (not_lt.mp hle)
        exact ⟨by simp [Stage.writes], n, le_rfl, hn, .inl ⟨rfl, rfl⟩, hmade, hcovers,
          done ++ [m], by simp, by rwa [List.length_append]⟩
  | begun c m rest =>
    obtain ⟨hfree, h⟩ := Option.ite_none_right_eq_some.mp h
    split at h
    · next schema' hrun =>
      obtain rfl := Option.some.inj h
      exact ⟨fun _ => .inl hfree, n, le_rfl, hn, .inl ⟨rfl, rfl⟩, hmade, hsound, rfl, hrun⟩
    · obtain rfl := Option.some.inj h
      exact ⟨fun _ => .inl hfree, n, le_rfl, hn, .inl ⟨rfl, rfl⟩, hmade,
        by simp [Stage.Sound]⟩
  | executed c m rest tx =>
    obtain ⟨⟨hcovers, done, rfl, hlen⟩, hledger, hrun⟩ := hsound
    dsimp only at h
    split at h
    · next tx' hinsert =>
      obtain rfl := Option.some.inj h
      obtain ⟨more, hmore⟩ := hms
      have htx : tx = { db with schema := tx.schema } := by rw [← hledger]
      rw [htx] at hinsert
      obtain ⟨hmade', hnew⟩ := hmade.insertRow hrun hinsert
      have hL : L = done ++ m :: (rest ++ more) := by simp [← hmore]
      -- were it there already, its version would be
      have hlen' : done.length = n := by
        by_contra hne
        refine hnew (List.mem_map_of_mem ?_)
        rw [hL, List.mem_take_iff_getElem]
        exact ⟨done.length, by simp; omega, by simp⟩
      refine ⟨fun _ => .inr rfl, n, le_rfl, hn, .inl ⟨rfl, rfl⟩, hmade,
        ⟨hcovers, done, rfl, hlen'⟩, ?_⟩
      have htake : L.take n ++ [m] = L.take (n + 1) := by
        rw [hL, ← hlen', List.take_left, List.take_length_add_append]
        rfl
      rwa [← htake]
    · obtain rfl := Option.some.inj h
      exact ⟨fun _ => .inr rfl, n, le_rfl, hn, .inl ⟨rfl, rfl⟩, hmade,
        by simp [Stage.Sound]⟩
  | inserted c m rest tx =>
    obtain ⟨⟨hcovers, done, rfl, hlen⟩, hmade'⟩ := hsound
    obtain rfl := Option.some.inj h
    obtain ⟨more, hmore⟩ := hms
    have hlt : n + 1 ≤ L.length := by
      have := congrArg List.length hmore
      simp only [List.length_append, List.length_cons] at this
      omega
    exact ⟨by simp [Stage.writes], n + 1, Nat.le_succ n, hlt, .inr (.inr rfl), hmade',
      hcovers.mono (Nat.le_succ n), done ++ [m], by simp, by simp [hlen]⟩
  | returned result => cases h

/-! ### Every step keeps the invariant -/

variable (run digest schema L) in
/-- **The invariant**: the first `n` migrations made the database, every process goes on from
there, and one that has written in a transaction is the one with a write open. -/
structure Inv (w : World σ) : Prop where
  made : ∃ n ≤ L.length, MadeBy run digest schema (L.take n) w.db ∧
    ∀ pid p, w.procs pid = some p →
      p.migrations <+: L ∧ p.stage.Sound run digest schema L w.db n p.migrations
  writer : ∀ pid p, w.procs pid = some p → p.stage.writes = true → w.writer = some pid

theorem inv_new : Inv run digest schema L (World.new schema) where
  made := ⟨0, Nat.zero_le _, ⟨rfl, rfl⟩, by rintro pid p ⟨⟩⟩
  writer := by rintro pid p ⟨⟩

/-- **The writer** after one process has moved, if it was free for it to write. -/
theorem Inv.writer_move {w : World σ} (h : Inv run digest schema L w) {pid : ℕ} {p : Process σ}
    {stage : Stage σ} (hstage : stage.writes = true →
      w.writer = none ∨ ∃ p, w.procs pid = some p ∧ p.stage.writes = true) :
    ∀ pid' p', (w.move pid p stage).procs pid' = some p' → p'.stage.writes = true →
      (w.move pid p stage).writer = some pid' := by
  rintro pid' p' hp' hwrites
  dsimp only [World.move] at hp' ⊢
  by_cases hpid : pid' = pid
  · rw [hpid, Function.update_self] at hp'
    obtain rfl := Option.some.inj hp'
    rw [if_pos hwrites, hpid]
  · rw [Function.update_of_ne hpid] at hp'
    have hwriter := h.writer pid' p' hp' hwrites
    split
    · next hnew =>
      -- nobody else was writing
      rcases hstage hnew with hnone | ⟨q, hq, hqwrites⟩
      · rw [hnone] at hwriter
        cases hwriter
      · rw [h.writer pid q hq hqwrites] at hwriter
        exact absurd (Option.some.inj hwriter).symm hpid
    · rw [hwriter, if_neg (by simpa using hpid)]

/-- **A process moves**, and the database with it: the others are not disturbed. -/
theorem Inv.move {w : World σ} (h : Inv run digest schema L w) {pid : ℕ} {p : Process σ}
    {stage : Stage σ} {db' : Database σ} (hms : p.migrations <+: L)
    (hstage : stage.writes = true →
      w.writer = none ∨ ∃ p, w.procs pid = some p ∧ p.stage.writes = true)
    (hmade : ∀ n ≤ L.length, MadeBy run digest schema (L.take n) w.db →
      (∀ p, w.procs pid = some p → p.stage.Sound run digest schema L w.db n p.migrations) →
      ∃ n', n ≤ n' ∧ n' ≤ L.length ∧
        (db' = w.db ∧ n' = n ∨ w.writer = none ∨
          ∃ p, w.procs pid = some p ∧ p.stage.writes = true) ∧
        MadeBy run digest schema (L.take n') db' ∧
        stage.Sound run digest schema L db' n' p.migrations) :
    Inv run digest schema L { w.move pid p stage with db := db' } := by
  refine ⟨?_, h.writer_move hstage⟩
  obtain ⟨n, hn, hdb, hprocs⟩ := h.made
  obtain ⟨n', hle, hn', hothers, hdb', hsound⟩ :=
    hmade n hn hdb fun p hp => (hprocs pid p hp).2
  refine ⟨n', hn', hdb', fun pid' p' hp' => ?_⟩
  dsimp only [World.move] at hp'
  by_cases hpid : pid' = pid
  · rw [hpid, Function.update_self] at hp'
    obtain rfl := Option.some.inj hp'
    exact ⟨hms, hsound⟩
  rw [Function.update_of_ne hpid] at hp'
  obtain ⟨hms', hsound'⟩ := hprocs pid' p' hp'
  refine ⟨hms', ?_⟩
  by_cases hwrites : p'.stage.writes = true
  · -- a process with a write open excludes every other one
    have hwriter := h.writer pid' p' hp' hwrites
    rcases hothers with ⟨rfl, rfl⟩ | hnone | ⟨q, hq, hqwrites⟩
    · exact hsound'
    · rw [hnone] at hwriter
      cases hwriter
    · rw [h.writer pid q hq hqwrites] at hwriter
      exact absurd (Option.some.inj hwriter).symm hpid
  · exact hsound'.mono (by simpa using hwrites) hle

/-- **Every step keeps the invariant.** -/
theorem Inv.step (hpos : ∀ m ∈ L, 0 < m.version) (hasc : (L.map (·.version)).Pairwise (· < ·))
    {w w' : World σ} (h : Inv run digest schema L w) {a : Act}
    (hstep : w.step run digest L a = some w') : Inv run digest schema L w' := by
  -- a process that gives up leaves the database
  have hgive : ∀ pid p, w.procs pid = some p →
      Inv run digest schema L (w.move pid p (.returned (.error .database))) := by
    rintro pid p hp
    obtain ⟨n, hn, hdb, hprocs⟩ := h.made
    show Inv run digest schema L
      { w.move pid p (.returned (.error .database)) with db := w.db }
    refine h.move (hprocs pid p hp).1 (by rintro ⟨⟩) fun n hn hmade _ => ?_
    exact ⟨n, le_rfl, hn, .inl ⟨rfl, rfl⟩, hmade, by simp [Stage.Sound]⟩
  rcases a with ⟨pid, k, allow⟩ | ⟨pid, now⟩ | pid | pid
  · rw [World.step] at hstep
    split at hstep
    · obtain rfl := Option.some.inj hstep
      show Inv run digest schema L
        { w.move pid ⟨L.take k, allow, .create⟩ .create with db := w.db }
      refine h.move (List.take_prefix k L) (by rintro ⟨⟩) fun n hn hmade _ => ?_
      exact ⟨n, le_rfl, hn, .inl ⟨rfl, rfl⟩, hmade, trivial⟩
    · cases hstep
  · obtain ⟨p, hp, hnext⟩ := Option.bind_eq_some_iff.mp hstep
    obtain ⟨d, hd, rfl⟩ := Option.map_eq_some_iff.mp hnext
    obtain ⟨n₀, hn₀, hdb₀, hprocs⟩ := h.made
    have hms := (hprocs pid p hp).1
    have hspec := fun (n : ℕ) (hn : n ≤ L.length)
        (hmade : MadeBy run digest schema (L.take n) w.db) hsound =>
      Process.next_spec hpos hasc hms hn hmade hsound hd
    have hfree : (decide (w.writer = none) = true ∨ p.stage.writes = true) →
        w.writer = none ∨ ∃ p, w.procs pid = some p ∧ p.stage.writes = true := by
      rintro (hnone | hwrites)
      · exact .inl (of_decide_eq_true hnone)
      · exact .inr ⟨p, hp, hwrites⟩
    refine h.move hms (fun hwrites => hfree ?_) fun n hn hmade hsound => ?_
    · exact (hspec n₀ hn₀ hdb₀ (hprocs pid p hp).2).1 hwrites
    · obtain ⟨-, n', hle, hn', hothers, hmade', hsound'⟩ := hspec n hn hmade (hsound p hp)
      exact ⟨n', hle, hn', hothers.imp_right hfree, hmade', hsound'⟩
  · obtain ⟨p, hp, hfail⟩ := Option.bind_eq_some_iff.mp hstep
    split at hfail
    · cases hfail
    · obtain rfl := Option.some.inj hfail
      exact hgive pid p hp
  · obtain ⟨p, hp, rfl⟩ := Option.map_eq_some_iff.mp hstep
    have hmoved := hgive pid p hp
    -- the others are as if it had given up
    have hprocs : ∀ pid' p', Function.update w.procs pid none pid' = some p' →
        (w.move pid p (.returned (.error .database))).procs pid' = some p' := by
      rintro pid' p' hp'
      by_cases hpid : pid' = pid
      · rw [hpid, Function.update_self] at hp'
        cases hp'
      · rw [Function.update_of_ne hpid] at hp'
        exact (Function.update_of_ne hpid ..).trans hp'
    obtain ⟨n, hn, hdb, hall⟩ := hmoved.made
    exact ⟨⟨n, hn, hdb, fun pid' p' hp' => hall pid' p' (hprocs pid' p' hp')⟩,
      fun pid' p' hp' => hmoved.writer pid' p' (hprocs pid' p' hp')⟩

/-! ### The ledger -/

variable (run digest schema L) in
/-- **The ledger is right**: its versions are a beginning of those of the list, the schema is what
the migrations up to there make, each applied once and in order, and a call with the whole list
has returned `Ok` only if all of it is there, with the checksums of its texts. -/
structure LedgerCorrect (w : World σ) : Prop where
  ledger : w.db.rows.map (·.version) <+: L.map (·.version)
  made : ∃ n, w.db.rows.map (·.version) = (L.take n).map (·.version) ∧
    schemaOf run schema (L.take n) = some w.db.schema
  returned : ∀ pid p, w.procs pid = some p → p.migrations = L → p.stage = .returned (.ok ()) →
    w.db.rows.map (·.version) = L.map (·.version) ∧
    schemaOf run schema L = some w.db.schema ∧
    (p.allowChecksumMismatch = false → ∀ m ∈ L, ∀ row ∈ w.db.rows,
      row.version = m.version → row.checksum = checksum digest m.sql)

theorem Inv.ledgerCorrect {w : World σ} (h : Inv run digest schema L w)
    (hasc : (L.map (·.version)).Pairwise (· < ·)) : LedgerCorrect run digest schema L w := by
  obtain ⟨n, hn, hdb, hprocs⟩ := h.made
  refine ⟨?_, ⟨n, hdb.versions, hdb.schema⟩, ?_⟩
  · rw [hdb.versions, List.map_take]
    exact List.take_prefix ..
  · rintro pid p hp hms hok
    obtain ⟨-, hsound⟩ := hprocs pid p hp
    rw [hok, hms] at hsound
    -- nothing is left of the list
    have hall : L.take n = L := List.take_of_length_le (hsound rfl)
    rw [hall] at hdb
    exact ⟨hdb.versions, hdb.schema, fun _ m hm row hrow heq =>
      hdb.checksum_eq (List.Subset.refl L) hasc hm hrow heq⟩

/-- **The migration ledger.** For a list of migrations whose versions ascend from above zero, in
every run of any number of calls with the migrations up to some point, which may fail or stop at
any statement, the ledger is right. -/
theorem ledgerCorrect_of_runs (hpos : ∀ m ∈ L, 0 < m.version)
    (hasc : (L.map (·.version)).Pairwise (· < ·)) {w : World σ}
    (h : Runs (World.step run digest L) anyStep (World.new schema) w) :
    LedgerCorrect run digest schema L w :=
  Inv.ledgerCorrect (h.invariant inv_new fun _ _ _ hv _ hstep => hv.step hpos hasc hstep) hasc

/-! ### Two lists -/

def createTable (sql : String) (tables : List String) : Option (List String) :=
  if sql ∈ tables then none else some (tables ++ [sql])

def twoTables : List Migration :=
  [⟨1, "0001_a.sql", "CREATE TABLE a (x INTEGER);"⟩,
    ⟨2, "0002_b.sql", "CREATE TABLE b (x INTEGER);"⟩]

def sha256 (bytes : List UInt8) : List UInt8 :=
  if bytes = Utf8.encode "CREATE TABLE a (x INTEGER);".toList then
    [3, 138, 38, 188, 65, 190, 225, 33, 7, 126, 219, 101, 21, 160, 208, 209, 37, 212, 139, 131,
      18, 14, 82, 90, 10, 147, 250, 65, 18, 237, 209, 242]
  else if bytes = Utf8.encode "CREATE TABLE b (x INTEGER);".toList then
    [231, 255, 137, 208, 73, 176, 139, 65, 164, 7, 98, 22, 88, 141, 123, 124, 230, 55, 5, 191,
      69, 24, 251, 218, 153, 246, 89, 196, 145, 48, 7, 34]
  else []

def statements (pid k : ℕ) : List Act := List.replicate k (.statement pid "2026-01-01T00:00:00Z")

/-- Two processes begin at once, one with the first migration only. The other one is faster and
applies it; the first one fails. A third one finds everything there. -/
def raceRun : List Act :=
  [.start 0 2 false, .start 1 1 false] ++ statements 0 3 ++ statements 1 5 ++ statements 0 8 ++
    statements 1 2 ++ statements 0 4 ++ [.start 2 2 false] ++ statements 2 9

/-- Both migrations are there, and the third process has returned `Ok`. -/
theorem ledgerCorrect_of_runs_race : ∃ w,
    Runs (World.step createTable sha256 twoTables) anyStep (World.new []) w ∧
    w.db.rows.map (·.version) = [1, 2] ∧
    LedgerCorrect createTable sha256 [] twoTables w :=
  have h : ∃ w, exec (World.step createTable sha256 twoTables) (World.new []) raceRun = some w ∧
      w.db.rows.map (·.version) = [1, 2] := ⟨_, rfl, rfl⟩
  let ⟨w, hw, hversions⟩ := h
  have hruns := runs_of_exec hw
  ⟨w, hruns, hversions, ledgerCorrect_of_runs (by decide) (by decide) hruns⟩

def fromZero : List Migration := [⟨0, "0000_a.sql", "CREATE TABLE a (x INTEGER);"⟩]

/-- **Version zero**: the call returns `Ok`, and nothing was applied. -/
theorem not_ledgerCorrect_zero : ¬∀ L : List Migration, (L.map (·.version)).Pairwise (· < ·) →
    ∀ w, Runs (World.step createTable sha256 L) anyStep (World.new []) w →
      LedgerCorrect createTable sha256 [] L w := by
  intro hall
  have hrun : ∃ w p, exec (World.step createTable sha256 fromZero) (World.new [])
      (.start 0 1 false :: statements 0 7) = some w ∧ w.db.rows = [] ∧ w.procs 0 = some p ∧
      p.migrations = fromZero ∧ p.stage = .returned (.ok ()) := ⟨_, _, rfl, rfl, rfl, rfl, rfl⟩
  obtain ⟨w, p, hw, hrows, hp, hms, hok⟩ := hrun
  have hreturned := (hall fromZero (by decide) w (runs_of_exec hw)).returned 0 p hp hms hok
  rw [hrows] at hreturned
  exact absurd hreturned.1 (by decide)

end EmeraldExchange.MediaCore.Migrate
