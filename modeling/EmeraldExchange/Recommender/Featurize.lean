import Mathlib.Algebra.Ring.Int.Defs
import Mathlib.Data.List.Sort
import EmeraldExchange.Recommender.Events

/-!
# The feature index

A title is searched by a vector that is computed from its text, genres and keywords. The ingest
writes titles, each in a transaction of its own; a featurize run reads the titles whose features are
missing or older than they are, computes their vectors, and writes them back in chunks. The run
takes its stamp after it has read the titles and before it computes, and both stamps are whole
seconds.

What is read in one transaction and written in another may have changed in between. A title that is
re-fetched after the run has read it, but not in a later second than the run's stamp, has features
of its old text that pass for fresh (`not_good_race`); and a
title that is deleted meanwhile gets features and a vector without a title. When neither happens,
features that pass for fresh are fresh, and none is without its title
(`good_of_runs`).

A vector is known by what it was computed from. There may be several runs at once.
-/

namespace EmeraldExchange.Recommender.Featurize

structure Key where
  kind : Kind
  tmdbId : ℤ
  deriving DecidableEq

/-- What a vector is computed from: the title and overview, and the identifiers of the genres and
the keywords, in ascending order. -/
structure Content where
  title : String
  overview : Option String
  genres : List ℤ
  keywords : List ℤ
  deriving DecidableEq

/-- A row of `titles`, with its genres and keywords. -/
structure TitleRow where
  content : Content
  /-- In seconds. -/
  fetchedAt : ℤ
  deriving DecidableEq

/-- A row of `title_features`. -/
structure FeatureRow where
  /-- What the vector was computed from. -/
  source : Content
  /-- In seconds; none is the empty text, which is before every stamp. -/
  computedAt : Option ℤ
  deriving DecidableEq

/-- A row of `title_vec`. -/
structure VecRow where
  kind : Kind
  source : Content
  deriving DecidableEq

/-- **The tables that the two jobs share.** -/
structure Db where
  titles : Table Key TitleRow
  titleFeatures : Table Key FeatureRow
  /-- By rowid. -/
  titleVec : Table ℤ VecRow
  /-- The identity of the model that computed the vectors. -/
  embedModel : Option String

def Db.empty : Db := ⟨∅, ∅, ∅, none⟩

/-! ### The ingest -/

def kindBit : ℤ := 2 ^ 32

/-- The rowid of a title's vector: a show has bit 32 set. Too large an identifier has none. -/
def encodeVecRowid (key : Key) : Option ℤ :=
  if kindBit ≤ key.tmdbId then none
  else match key.kind with
    | .movie => some key.tmdbId
    | .tv => some (if key.tmdbId / kindBit % 2 = 1 then key.tmdbId else key.tmdbId + kindBit)

/-- `DELETE FROM title_vec WHERE rowid = ? AND kind = ?` -/
def Db.deleteVec (db : Db) (rowid : ℤ) (kind : Kind) : Db :=
  if (db.titleVec.lookup rowid).any fun v => v.kind = kind then
    { db with titleVec := db.titleVec.erase rowid }
  else db

/-- **A title is gone everywhere.** -/
def Db.deleteTitle (db : Db) (key : Key) : Option Db :=
  (encodeVecRowid key).map fun rowid =>
    let db := db.deleteVec rowid key.kind
    { db with titleFeatures := db.titleFeatures.erase key, titles := db.titles.erase key }

/-- **A title is written**, with what it was fetched as. -/
def Db.upsertTitle (db : Db) (key : Key) (content : Content) (fetchedAt : ℤ) : Db :=
  { db with titles := db.titles.insert key ⟨content, fetchedAt⟩ }

/-! ### A run -/

/-- `computed_at < fetched_at` -/
def stale (computedAt : Option ℤ) (fetchedAt : ℤ) : Bool :=
  match computedAt with
  | none => true
  | some c => c < fetchedAt

/-- A title that is to be featurized, as it was read. -/
structure Pending where
  key : Key
  content : Content
  deriving DecidableEq

def Kind.rank : Kind → ℕ
  | .movie => 0
  | .tv => 1

/-- `ORDER BY t.fetched_at ASC, t.kind, t.tmdb_id` -/
def pendingLe (a b : Sigma fun _ : Key => TitleRow) : Bool :=
  a.2.fetchedAt < b.2.fetchedAt ||
    (a.2.fetchedAt = b.2.fetchedAt && (Kind.rank a.1.kind < Kind.rank b.1.kind ||
      (Kind.rank a.1.kind = Kind.rank b.1.kind && a.1.tmdbId ≤ b.1.tmdbId)))

/-- **The titles never featurized, or fetched again since**: at most `limit`, where there is one. -/
def Db.loadPending (db : Db) (limit : Option ℤ) : List Pending :=
  let due := db.titles.entries.filter fun e =>
    match db.titleFeatures.lookup e.1 with
    | none => true
    | some f => stale f.computedAt e.2.fetchedAt
  let rows := (due.insertionSort fun a b => pendingLe a b = true).map fun e =>
    (⟨e.1, e.2.content⟩ : Pending)
  match limit with
  | some l => if 0 < l then rows.take l.toNat else rows
  | none => rows

/-- **Every feature is stale** once the model has changed. -/
def Db.reconcileModelIdentity (db : Db) (identity : String) : Db :=
  if db.embedModel = some identity then db
  else
    let titleFeatures :=
      if db.embedModel.isSome then
        db.titleFeatures.mapValues fun _ f => { f with computedAt := none }
      else db.titleFeatures
    { db with titleFeatures := titleFeatures, embedModel := some identity }

/-- Write one title's features, and swap its vector; a rowid that another kind has is refused. -/
def Db.persistOne (db : Db) (computedAt : ℤ) (row : Pending) : Option Db :=
  (encodeVecRowid row.key).bind fun rowid =>
    let db := { db with
      titleFeatures := db.titleFeatures.insert row.key ⟨row.content, some computedAt⟩ }
    let db := db.deleteVec rowid row.key.kind
    if (db.titleVec.lookup rowid).isSome then none
    else some { db with titleVec := db.titleVec.insert rowid ⟨row.key.kind, row.content⟩ }

/-- **Write one chunk**, all of it or nothing. -/
def Db.persist (db : Db) (computedAt : ℤ) (chunk : List Pending) : Option Db :=
  chunk.foldlM (fun db row => db.persistOne computedAt row) db

def commitChunkSize : ℕ := 256

inductive Phase
  | idle
  /-- The identity of the model is settled. -/
  | reconciled
  /-- The pending titles are read. -/
  | loaded (pending : List Pending)
  /-- The clock is read, and these are still to be written. -/
  | writing (now : ℤ) (pending : List Pending)
  deriving DecidableEq

/-- **The tables, the runs, and the latest reading of the clock.** -/
structure World where
  db : Db
  phase : ℕ → Phase
  clock : ℤ

inductive Act
  /-- The transaction reads the clock itself, at the latest when it commits. -/
  | upsert (key : Key) (content : Content) (fetchedAt : ℤ)
  | delete (key : Key)
  | reconcile (p : ℕ) (identity : String)
  | load (p : ℕ) (limit : Option ℤ)
  | readClock (p : ℕ)
  /-- One chunk is encoded and written. -/
  | persist (p : ℕ)
  /-- A run fails. -/
  | fail (p : ℕ)

def World.setPhase (w : World) (p : ℕ) (phase : Phase) : World :=
  { w with phase := Function.update w.phase p phase }

/-- What is left of a run with these titles to write. -/
def Phase.next (now : ℤ) (pending : List Pending) : Phase :=
  if pending = [] then .idle else .writing now pending

/-- **One step**, at a time that is not before the last one. -/
def step (w : World) (a : ℤ × Act) : Option World :=
  if a.1 < w.clock then none
  else
    let w := { w with clock := a.1 }
    match a.2 with
    | .upsert key content fetchedAt =>
      if a.1 < fetchedAt then none
      else some { w with db := w.db.upsertTitle key content fetchedAt }
    | .delete key => (w.db.deleteTitle key).map fun db => { w with db := db }
    | .reconcile p identity =>
      match w.phase p with
      | .idle => some ({ w with db := w.db.reconcileModelIdentity identity }.setPhase p .reconciled)
      | _ => none
    | .load p limit =>
      match w.phase p with
      | .reconciled =>
        let pending := w.db.loadPending limit
        some (w.setPhase p (if pending = [] then .idle else .loaded pending))
      | _ => none
    | .readClock p =>
      match w.phase p with
      | .loaded pending => some (w.setPhase p (.writing a.1 pending))
      | _ => none
    | .persist p =>
      match w.phase p with
      | .writing now pending =>
        (w.db.persist now (pending.take commitChunkSize)).map fun db =>
          { w with db := db }.setPhase p (.next now (pending.drop commitChunkSize))
      | _ => none
    | .fail p => some (w.setPhase p .idle)

/-- Nothing ingested, and no run in progress. -/
def World.start (clock : ℤ) : World := ⟨.empty, fun _ => .idle, clock⟩

/-! ### What is to hold -/

/-- **What passes for fresh is fresh, and nothing is without its title.** -/
structure Good (db : Db) : Prop where
  fresh : ∀ key f t, db.titleFeatures.lookup key = some f → db.titles.lookup key = some t →
    stale f.computedAt t.fetchedAt = false → f.source = t.content
  feature_title : ∀ key, key ∈ db.titleFeatures → key ∈ db.titles
  vec_title : ∀ rowid v, db.titleVec.lookup rowid = some v →
    ∃ key ∈ db.titles, key.kind = v.kind ∧ encodeVecRowid key = some rowid

/-- A row that was read is still there as it was, or has been fetched again in a later second than
the stamp. -/
def Db.Current (db : Db) (now : ℤ) (row : Pending) : Prop :=
  ∃ t ∈ db.titles.lookup row.key, t.content = row.content ∨ stale (some now) t.fetchedAt = true

instance (db : Db) (now : ℤ) (row : Pending) : Decidable (db.Current now row) :=
  decidable_of_iff ((db.titles.lookup row.key).any fun t =>
      decide (t.content = row.content ∨ stale (some now) t.fetchedAt = true)) <| by
    rw [Option.any_eq_true]
    exact exists_congr fun t => and_congr Iff.rfl (decide_eq_true_iff)

/-- The features that a title has, if they are still fresh, are of this content. -/
def Db.Matches (db : Db) (key : Key) (content : Content) (fetchedAt : ℤ) : Prop :=
  ∀ f ∈ db.titleFeatures.lookup key,
    f.source = content ∨ stale f.computedAt fetchedAt = true

instance (db : Db) (key : Key) (content : Content) (fetchedAt : ℤ) :
    Decidable (db.Matches key content fetchedAt) :=
  decidable_of_iff ((db.titleFeatures.lookup key).all fun f =>
      decide (f.source = content ∨ stale f.computedAt fetchedAt = true)) <| by
    rw [Option.all_eq_true]
    exact forall_congr' fun f => imp_congr Iff.rfl (decide_eq_true_iff)

/-- The stamp of a run, and the rows that it writes next. -/
def Phase.chunk : Phase → ℤ × List Pending
  | .writing now pending => (now, pending.take commitChunkSize)
  | _ => (0, [])

/-- **No title changes under a run within the second of its stamp**: what a chunk writes is current,
and what is fetched anew is what its features are of, or is fetched in a later second than their
stamp. -/
def TimelyAct (w : World) : Act → Prop
  | .upsert key content fetchedAt => w.db.Matches key content fetchedAt
  | .persist p => ∀ row ∈ (w.phase p).chunk.2, w.db.Current (w.phase p).chunk.1 row
  | _ => True

instance (w : World) : ∀ a, Decidable (TimelyAct w a)
  | .upsert _ _ _ => inferInstanceAs (Decidable (w.db.Matches _ _ _))
  | .persist p => inferInstanceAs (Decidable (∀ row ∈ (w.phase p).chunk.2, _))
  | .delete _ => inferInstanceAs (Decidable True)
  | .reconcile _ _ => inferInstanceAs (Decidable True)
  | .load _ _ => inferInstanceAs (Decidable True)
  | .readClock _ => inferInstanceAs (Decidable True)
  | .fail _ => inferInstanceAs (Decidable True)

def Timely (w : World) (a : ℤ × Act) : Prop := TimelyAct w a.2

instance (w : World) (a : ℤ × Act) : Decidable (Timely w a) :=
  inferInstanceAs (Decidable (TimelyAct _ _))

/-! ### What each transaction changes -/

variable {db db' : Db}

theorem lookup_deleteVec {rowid r : ℤ} {kind : Kind} {v : VecRow}
    (h : (db.deleteVec rowid kind).titleVec.lookup r = some v) :
    db.titleVec.lookup r = some v ∧ ¬ (r = rowid ∧ v.kind = kind) := by
  rw [Db.deleteVec] at h
  split at h
  · next hkind =>
    rcases eq_or_ne r rowid with rfl | hne
    · simp at h
    · rw [AList.lookup_erase_ne hne] at h
      exact ⟨h, fun hr => hne hr.1⟩
  · next hkind =>
    refine ⟨h, ?_⟩
    rintro ⟨rfl, rfl⟩
    exact hkind (by simp [h])

@[simp] theorem titles_deleteVec (db : Db) (rowid : ℤ) (kind : Kind) :
    (db.deleteVec rowid kind).titles = db.titles := by
  rw [Db.deleteVec]
  split <;> rfl

@[simp] theorem titleFeatures_deleteVec (db : Db) (rowid : ℤ) (kind : Kind) :
    (db.deleteVec rowid kind).titleFeatures = db.titleFeatures := by
  rw [Db.deleteVec]
  split <;> rfl

theorem deleteTitle_eq_some {key : Key} (h : db.deleteTitle key = some db') :
    ∃ rowid, encodeVecRowid key = some rowid ∧ db'.titles = db.titles.erase key ∧
      db'.titleFeatures = db.titleFeatures.erase key ∧
      db'.titleVec = (db.deleteVec rowid key.kind).titleVec := by
  obtain ⟨rowid, hrowid, rfl⟩ := Option.map_eq_some_iff.mp h
  exact ⟨rowid, hrowid, by simp, by simp, rfl⟩

theorem persistOne_eq_some {now : ℤ} {row : Pending} (h : db.persistOne now row = some db') :
    ∃ rowid, encodeVecRowid row.key = some rowid ∧ db'.titles = db.titles ∧
      db'.titleFeatures = db.titleFeatures.insert row.key ⟨row.content, some now⟩ ∧
      ∀ r v, db'.titleVec.lookup r = some v →
        (r = rowid ∧ v = ⟨row.key.kind, row.content⟩) ∨ db.titleVec.lookup r = some v := by
  obtain ⟨rowid, hrowid, h⟩ := Option.bind_eq_some_iff.mp h
  dsimp only at h
  split at h
  · cases h
  obtain rfl := Option.some.inj h
  refine ⟨rowid, hrowid, by simp, by simp, fun r v hv => ?_⟩
  rcases Table.lookup_insert_cases hv with ⟨rfl, rfl⟩ | ⟨-, hv⟩
  · exact Or.inl ⟨rfl, rfl⟩
  · exact Or.inr (lookup_deleteVec hv).1

theorem Good.deleteTitle (h : Good db) {key : Key} (hdel : db.deleteTitle key = some db') :
    Good db' := by
  obtain ⟨rowid, hrowid, htitles, hfeatures, hvec⟩ := deleteTitle_eq_some hdel
  constructor
  · intro k f t hf ht
    rw [hfeatures] at hf
    rw [htitles] at ht
    rcases eq_or_ne k key with rfl | hne
    · simp at hf
    · rw [AList.lookup_erase_ne hne] at hf ht
      exact h.fresh k f t hf ht
  · intro k hk
    rw [hfeatures] at hk
    rw [htitles]
    obtain ⟨hne, hk⟩ := AList.mem_erase.mp hk
    exact AList.mem_erase.mpr ⟨hne, h.feature_title k hk⟩
  · intro r v hv
    rw [hvec] at hv
    obtain ⟨hv, hnot⟩ := lookup_deleteVec hv
    obtain ⟨k, hk, hkind, hr⟩ := h.vec_title r v hv
    refine ⟨k, ?_, hkind, hr⟩
    rw [htitles]
    refine AList.mem_erase.mpr ⟨?_, hk⟩
    -- the vector of the deleted title has gone with it
    rintro rfl
    exact hnot ⟨Option.some.inj (hr.symm.trans hrowid), hkind.symm⟩

theorem Good.upsertTitle (h : Good db) {key : Key} {content : Content} {fetchedAt : ℤ}
    (hmatch : db.Matches key content fetchedAt) : Good (db.upsertTitle key content fetchedAt) := by
  constructor
  · intro k f t hf ht hstale
    rcases Table.lookup_insert_cases ht with ⟨rfl, rfl⟩ | ⟨-, ht⟩
    · rcases hmatch f hf with hsource | hold
      · exact hsource
      · rw [hold] at hstale
        cases hstale
    · exact h.fresh k f t hf ht hstale
  · intro k hk
    exact (AList.mem_insert _).mpr (Or.inr (h.feature_title k hk))
  · intro r v hv
    obtain ⟨k, hk, hkind, hr⟩ := h.vec_title r v hv
    exact ⟨k, (AList.mem_insert _).mpr (Or.inr hk), hkind, hr⟩

theorem Good.reconcileModelIdentity (h : Good db) (identity : String) :
    Good (db.reconcileModelIdentity identity) := by
  rw [Db.reconcileModelIdentity]
  split
  · exact h
  · split
    · constructor
      · intro k f t hf _ hstale
        obtain ⟨f, -, rfl⟩ := Option.map_eq_some_iff.mp ((Table.lookup_mapValues ..).symm.trans hf)
        cases hstale
      · intro k hk
        have hk' : (db.titleFeatures.lookup k).isSome = true := by
          simpa using AList.lookup_isSome.mpr hk
        exact h.feature_title k (AList.lookup_isSome.mp hk')
      · exact h.vec_title
    · exact ⟨h.fresh, h.feature_title, h.vec_title⟩

/-- **One row may be written where it is current**; the titles stay. -/
theorem Good.persistOne (h : Good db) {now : ℤ} {row : Pending} (hcur : db.Current now row)
    (hp : db.persistOne now row = some db') : Good db' ∧ db'.titles = db.titles := by
  obtain ⟨rowid, hrowid, htitles, hfeatures, hvec⟩ := persistOne_eq_some hp
  obtain ⟨t₀, ht₀, hcur⟩ := hcur
  refine ⟨?_, htitles⟩
  constructor
  · intro k f t hf ht hstale
    rw [hfeatures] at hf
    rw [htitles] at ht
    rcases Table.lookup_insert_cases hf with ⟨rfl, rfl⟩ | ⟨-, hf⟩
    · obtain rfl : t₀ = t := Option.some.inj (ht₀.symm.trans ht)
      rcases hcur with hsource | hold
      · exact hsource.symm
      · rw [hold] at hstale
        cases hstale
    · exact h.fresh k f t hf ht hstale
  · intro k hk
    rw [hfeatures] at hk
    rw [htitles]
    rcases (AList.mem_insert _).mp hk with rfl | hk
    · exact AList.lookup_isSome.mp (Option.isSome_of_mem ht₀)
    · exact h.feature_title k hk
  · intro r v hv
    rw [htitles]
    rcases hvec r v hv with ⟨rfl, rfl⟩ | hv
    · exact ⟨row.key, AList.lookup_isSome.mp (Option.isSome_of_mem ht₀), rfl, hrowid⟩
    · exact h.vec_title r v hv

/-- **A chunk may be written where each of its rows is current.** -/
theorem Good.persist {now : ℤ} : ∀ {chunk : List Pending} {db : Db}, Good db →
    (∀ row ∈ chunk, db.Current now row) → db.persist now chunk = some db' → Good db'
  | [], db, h, _, hp => by
    obtain rfl := Option.some.inj hp
    exact h
  | row :: chunk, db, h, hcur, hp => by
    rw [Db.persist, List.foldlM_cons] at hp
    obtain ⟨db₁, hone, hrest⟩ := Option.bind_eq_some_iff.mp hp
    obtain ⟨hgood, htitles⟩ := h.persistOne (hcur row List.mem_cons_self) hone
    refine hgood.persist (fun row' hrow' => ?_) hrest
    rw [Db.Current, htitles]
    exact hcur row' (List.mem_cons_of_mem row hrow')

theorem persist_eq_some {now : ℤ} : ∀ {chunk : List Pending} {db : Db},
    (chunk.map Pending.key).Nodup → db.persist now chunk = some db' →
    db'.titles = db.titles ∧
      (∀ row ∈ chunk, db'.titleFeatures.lookup row.key = some ⟨row.content, some now⟩) ∧
      ∀ key ∉ chunk.map Pending.key, db'.titleFeatures.lookup key = db.titleFeatures.lookup key
  | [], db, _, hp => by
    obtain rfl := Option.some.inj hp
    refine ⟨rfl, ?_, fun key _ => rfl⟩
    rintro row ⟨⟩
  | row :: chunk, db, hnodup, hp => by
    obtain ⟨hrow, hnodup⟩ := List.nodup_cons.mp hnodup
    rw [Db.persist, List.foldlM_cons] at hp
    obtain ⟨db₁, hone, hrest⟩ := Option.bind_eq_some_iff.mp hp
    obtain ⟨-, -, htitles₁, hfeatures₁, -⟩ := persistOne_eq_some hone
    obtain ⟨htitles, hwritten, hother⟩ := persist_eq_some hnodup hrest
    refine ⟨htitles.trans htitles₁, ?_, ?_⟩
    · intro row' hrow'
      rcases List.mem_cons.mp hrow' with rfl | hrow'
      · rw [hother row'.key hrow, hfeatures₁, AList.lookup_insert]
      · exact hwritten row' hrow'
    · intro key hkey
      obtain ⟨hne, hkey⟩ := not_or.mp (mt List.mem_cons.mpr hkey)
      rw [hother key hkey, hfeatures₁, AList.lookup_insert_ne hne]

/-! ### A whole run -/

/-- The titles that a run has still to write. -/
def Phase.pending : Phase → List Pending
  | .loaded pending => pending
  | .writing _ pending => pending
  | _ => []

/-- **No run writes a title twice.** -/
def Distinct (w : World) : Prop := ∀ p, ((w.phase p).pending.map Pending.key).Nodup

theorem nodup_loadPending (db : Db) (limit : Option ℤ) :
    ((db.loadPending limit).map Pending.key).Nodup := by
  have hkeys : ∀ due : List (Sigma fun _ : Key => TitleRow), due.Sublist db.titles.entries →
      (((due.insertionSort fun a b => pendingLe a b = true).map fun e =>
        (⟨e.1, e.2.content⟩ : Pending)).map Pending.key).Nodup := by
    intro due hdue
    rw [List.map_map]
    have hperm := (List.perm_insertionSort (fun a b => pendingLe a b = true) due).map Sigma.fst
    exact hperm.nodup_iff.mpr (db.titles.nodupKeys.sublist hdue)
  have hall := hkeys _ (List.filter_sublist (p := fun e => match db.titleFeatures.lookup e.1 with
    | none => true
    | some f => stale f.computedAt e.2.fetchedAt))
  simp only [Db.loadPending]
  split
  · split
    · exact hall.sublist ((List.take_sublist _ _).map _)
    · exact hall
  · exact hall

theorem Distinct.setPhase {w : World} (h : Distinct w) (p : ℕ) {phase : Phase}
    (hphase : (phase.pending.map Pending.key).Nodup) : Distinct (w.setPhase p phase) := by
  intro q
  rcases eq_or_ne q p with rfl | hne
  · simpa [World.setPhase] using hphase
  · simpa [World.setPhase, hne] using h q

/-- **One step**, from tables that are good: they stay good if and only if the step is timely. -/
theorem Good.step {w w' : World} {a : ℤ × Act} (h : Good w.db) (hdistinct : Distinct w)
    (hstep : step w a = some w') : (Good w'.db ↔ Timely w a) ∧ Distinct w' := by
  obtain ⟨now, act⟩ := a
  simp only [Featurize.step] at hstep
  split at hstep
  · cases hstep
  rcases act with ⟨key, content, fetchedAt⟩ | key | ⟨p, identity⟩ | ⟨p, limit⟩ | p | p | p
  -- the ingest
  · dsimp only at hstep
    split at hstep
    · cases hstep
    obtain rfl := Option.some.inj hstep
    refine ⟨⟨fun hgood f hf => ?_, fun htimely => h.upsertTitle htimely⟩, hdistinct⟩
    rcases hstale : stale f.computedAt fetchedAt with _ | _
    · exact Or.inl (hgood.fresh key f ⟨content, fetchedAt⟩ hf (AList.lookup_insert _) hstale)
    · exact Or.inr rfl
  · obtain ⟨db', hdel, rfl⟩ := Option.map_eq_some_iff.mp hstep
    exact ⟨iff_of_true (h.deleteTitle hdel) trivial, hdistinct⟩
  -- a run: only the identity of the model and the chunks are written
  · dsimp only at hstep
    split at hstep
    · obtain rfl := Option.some.inj hstep
      refine ⟨iff_of_true (h.reconcileModelIdentity identity) trivial, ?_⟩
      exact Distinct.setPhase hdistinct p List.nodup_nil
    · cases hstep
  · dsimp only at hstep
    split at hstep
    · obtain rfl := Option.some.inj hstep
      refine ⟨iff_of_true h trivial, Distinct.setPhase hdistinct p ?_⟩
      split
      · exact List.nodup_nil
      · exact nodup_loadPending w.db limit
    · cases hstep
  · dsimp only at hstep
    split at hstep
    · next pending hphase =>
      obtain rfl := Option.some.inj hstep
      have hpending := hdistinct p
      rw [hphase] at hpending
      exact ⟨iff_of_true h trivial, Distinct.setPhase hdistinct p hpending⟩
    · cases hstep
  · dsimp only at hstep
    split at hstep
    · next n pending hphase =>
      obtain ⟨db', hpersist, rfl⟩ := Option.map_eq_some_iff.mp hstep
      have hpending := hdistinct p
      rw [hphase] at hpending
      constructor
      · simp only [Timely, TimelyAct, hphase]
        refine ⟨fun hgood row hrow => ?_, fun htimely => h.persist htimely hpersist⟩
        -- what the chunk has written is there, so its title is, and agrees with it or is newer
        obtain ⟨htitles, hwritten, -⟩ :=
          persist_eq_some (hpending.sublist ((List.take_sublist _ _).map _)) hpersist
        have hfeature := hwritten row hrow
        have hmem := hgood.feature_title row.key (AList.lookup_isSome.mp (by
          rw [show (World.setPhase { w with db := db', clock := now } p _).db = db' from rfl,
            hfeature]
          rfl))
        obtain ⟨t, ht⟩ := Option.isSome_iff_exists.mp (AList.lookup_isSome.mpr hmem)
        refine ⟨t, (congrArg (AList.lookup row.key) htitles).symm.trans ht, ?_⟩
        rcases hstale : stale (some n) t.fetchedAt with _ | _
        · exact Or.inl (hgood.fresh row.key _ t hfeature ht hstale).symm
        · exact Or.inr hstale
      · refine Distinct.setPhase (w := { w with db := db', clock := now }) hdistinct p ?_
        rw [Phase.next]
        split
        · exact List.nodup_nil
        · exact hpending.sublist ((List.drop_sublist _ _).map _)
    · cases hstep
  · obtain rfl := Option.some.inj hstep
    exact ⟨iff_of_true h trivial, Distinct.setPhase hdistinct p List.nodup_nil⟩

/-- **Features that pass for fresh are fresh in every run without a race**, and none is without its
title; and the first step that is not timely leaves the tables bad. -/
theorem good_of_runs {clock : ℤ} {w : World} (h : Runs step Timely (World.start clock) w) :
    Good w.db ∧ ∀ a w', step w a = some w' → (Good w'.db ↔ Timely w a) := by
  have hinv : Good w.db ∧ Distinct w := by
    refine Runs.invariant (P := fun w => Good w.db ∧ Distinct w) h ?_ fun v a v' hv ha hstep => ?_
    · constructor
      · constructor
        · rintro key f t ⟨⟩
        · rintro key ⟨⟩
        · rintro rowid v ⟨⟩
      · exact fun p => List.nodup_nil
    · obtain ⟨hiff, hdistinct⟩ := hv.1.step hv.2 hstep
      exact ⟨hiff.mpr ha, hdistinct⟩
  exact ⟨hinv.1, fun a w' hstep => (hinv.1.step hinv.2 hstep).1⟩

/-- A film as it is fetched first, and with the overview that it gets later. -/
def film : Key := ⟨.movie, 603⟩

def first : Content := ⟨"The Matrix", none, [28, 878], []⟩

def second : Content := ⟨"The Matrix", some "A hacker learns the truth.", [28, 878], []⟩

/-- A film is featurized, and is fetched again two seconds later. -/
theorem good_of_runs_later : ∃ w, Runs step Timely (World.start 0) w ∧
    w.db.titles.lookup film = some ⟨second, 12⟩ ∧
    w.db.titleFeatures.lookup film = some ⟨first, some 10⟩ ∧ Good w.db := by
  have h : ∃ w, exec (guarded step Timely) (World.start 0)
      [(5, .upsert film first 5), (9, .reconcile 0 "minilm"), (9, .load 0 none), (10, .readClock 0),
        (11, .persist 0), (12, .upsert film second 12)] = some w ∧
      w.db.titles.lookup film = some ⟨second, 12⟩ ∧
      w.db.titleFeatures.lookup film = some ⟨first, some 10⟩ :=
    ⟨_, rfl, rfl, rfl⟩
  obtain ⟨w, hexec, htitle, hfeatures⟩ := h
  have hruns := runs_of_exec_guarded hexec
  exact ⟨w, hruns, htitle, hfeatures, (good_of_runs hruns).1⟩

/-- The film is fetched again after the run has read it and before the run reads the clock: its
features are of the old text, and pass for fresh for ever. -/
theorem not_good_race : ¬ ∀ w, Runs step anyStep (World.start 0) w →
    (∀ p, w.phase p = .idle) → Good w.db := by
  intro hall
  have h : ∃ w, exec step (World.start 0)
      [(5, .upsert film first 5), (9, .reconcile 0 "minilm"), (9, .load 0 none),
        (10, .upsert film second 10), (10, .readClock 0), (11, .persist 0)] = some w ∧
      (∀ p, w.phase p = .idle) ∧
      w.db.titles.lookup film = some ⟨second, 10⟩ ∧
      w.db.titleFeatures.lookup film = some ⟨first, some 10⟩ := by
    refine ⟨_, rfl, fun p => ?_, rfl, rfl⟩
    rcases p with _ | p
    · rfl
    · rfl
  obtain ⟨w, hexec, hidle, htitle, hfeatures⟩ := h
  have hsource := (hall w (runs_of_exec hexec) hidle).fresh film _ _ hfeatures htitle rfl
  cases congrArg Content.overview hsource

end EmeraldExchange.Recommender.Featurize
