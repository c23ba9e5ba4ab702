import EmeraldExchange.Lib.Runs
import EmeraldExchange.Lib.Table
import EmeraldExchange.Recommender.TitleDb
import Mathlib.Data.Int.ConditionallyCompleteOrder
import Mathlib.Order.ConditionallyCompleteLattice.Basic

/-!
# The caches of the recommender

The catalog of each kind and the weights of the credits are kept in memory, each under the
fingerprint of the tables that it was computed from. A call reads the fingerprint; a hit under it is
what it returns; otherwise it reads the rows, in several statements, and files what comes of them
under the fingerprint that it read first.
Meanwhile the ingest and the featurize job commit their transactions.

What a call returns that no transaction came between is to be what the tables give. It is not
(`not_follows`). The fingerprint of the titles and the features
has their newest stamp, and a stamp is a whole second, or, for the features, that of the start of
the run; so a second write under one stamp is not seen. The fingerprint of the credits has no
stamp: the rows at the end of the table that are deleted and inserted again have their old rowids.

It is as long as every transaction stays ahead of the fingerprints that something is filed under
or that a call has read (`follows_of_runs`).
-/

namespace EmeraldExchange.Recommender.Caches

open TitleDb
open RowTable (Generation generation watchRows watchColumn Reaches)
open Featurize (Key)

/-! ### What is cached -/

abbrev Generations := Generation Stamp × Generation Stamp

abbrev CatalogEntry := Generations × Catalog

/-- A table of weights, under its fingerprint. -/
abbrev IdfEntry := Generations × Idf

/-! ### The calls -/

/-- **Where a call for a catalog stands**: the statement that comes next, with what it has read. -/
inductive CatalogStage
  | titles (hit : Option CatalogEntry)
  | features (hit : Option CatalogEntry) (g : Generation Stamp)
  /-- Waits for the lock on the builds. -/
  | lock (gen : Generations)
  | rows (gen : Generations)
  | cast (gen : Generations) (rows : List CatalogRow)
  | crew (gen : Generations) (rows : List CatalogRow) (cast : List (ℤ × ℤ))
  | keywords (gen : Generations) (rows : List CatalogRow) (cast crew : List (ℤ × ℤ))
  | insert (gen : Generations) (cat : Catalog)
  /-- None is an error. -/
  | done (out : Option Catalog)

/-- **Where a call for the weights stands.** -/
inductive IdfStage
  | titles
  | credits (g : Generation Stamp)
  | check (gen : Generations)
  | df (gen : Generations)
  | count (gen : Generations) (df : List (ℤ × ℕ))
  | insert (gen : Generations) (idf : Idf)
  | done (out : Option Idf)

inductive Body
  | catalog (kind : Kind) (refresh : Bool) (stage : CatalogStage)
  | idf (key : IdfKey) (stage : IdfStage)

structure Call where
  /-- No transaction has committed since the call began. -/
  undisturbed : Bool
  body : Body

/-- **The database, the caches and the calls.** -/
structure World where
  db : CatalogDb
  catalogs : Table Kind CatalogEntry
  idf : Table IdfKey IdfEntry
  /-- The call that holds the lock on the builds. -/
  building : Option ℕ
  calls : Table ℕ Call

def World.init : World := ⟨.empty, ∅, ∅, none, ∅⟩

/-- The titles' fingerprint, with the newest `fetched_at`. -/
def titlesGeneration (db : CatalogDb) : Generation Stamp :=
  generation (some TitleRow.fetchedAt) db.tables.titles

/-- The features' fingerprint, with the newest `computed_at`. -/
def featuresGeneration (db : CatalogDb) : Generation Stamp :=
  generation (some FeatureRow.computedAt) db.titleFeatures

/-- **A call for a catalog goes on** by a statement. -/
def World.catalogNext (w : World) (i : ℕ) (kind : Kind) :
    CatalogStage → Option (World × CatalogStage)
  | .titles hit => some (w, .features hit (titlesGeneration w.db))
  | .features hit g =>
    let gen := (g, featuresGeneration w.db)
    match hit with
    | some (g', c) => some (w, if g' = gen then .done (some c) else .lock gen)
    | none => some (w, .lock gen)
  | .lock gen =>
    if w.building.isSome then none
    else match w.catalogs.lookup kind with
      | some (g', c) =>
        if g' = gen then some (w, .done (some c))
        else some ({ w with building := some i }, .rows gen)
      | none => some ({ w with building := some i }, .rows gen)
  | .rows gen => some (w, .cast gen (catalogRows kind w.db.tables w.db.titleFeatures))
  | .cast gen rows => some (w, .crew gen rows (castPairs kind w.db.tables))
  | .crew gen rows cast => some (w, .keywords gen rows cast (crewPairs kind w.db.tables))
  | .keywords gen rows cast crew =>
    match assemble rows cast crew (keywordPairs kind w.db.tables) with
    | some cat => some (w, .insert gen cat)
    | none => some ({ w with building := none }, .done none)
  | .insert gen cat =>
    some ({ w with catalogs := w.catalogs.insert kind (gen, cat), building := none },
      .done (some cat))
  | .done _ => none

/-- **A call for the weights goes on** by a statement. -/
def World.idfNext (w : World) (key : IdfKey) : IdfStage → Option (World × IdfStage)
  | .titles => some (w, .credits (generation none w.db.tables.titleKeys))
  | .credits g => some (w, .check (g, generation none (w.db.tables.credits key)))
  | .check gen =>
    match w.idf.lookup key with
    | some (g', v) => some (w, if g' = gen then .done (some v) else .df gen)
    | none => some (w, .df gen)
  | .df gen => some (w, .count gen (dfRows key.kind (w.db.tables.credits key)))
  | .count gen df =>
    some (w, .insert gen (weigh df (titleCount key.kind w.db.tables.titleKeys)))
  | .insert gen v => some ({ w with idf := w.idf.insert key (gen, v) }, .done (some v))
  | .done _ => none

inductive Event
  | commit (op : Op)
  /-- A call for the catalog of a kind begins. -/
  | catalog (i : ℕ) (kind : Kind) (refresh : Bool)
  /-- A call for the weights begins. -/
  | idf (i : ℕ) (kind : Kind) (which : Credits) (castTopn : ℤ)
  | next (i : ℕ)
  /-- A statement fails, or nobody waits for the call any more. -/
  | fail (i : ℕ)

def World.putCall (w : World) (i : ℕ) (c : Call) : World :=
  { w with calls := w.calls.insert i c }

/-- The call ends without a value, and lets the lock go. -/
def Body.fail : Body → Body
  | .catalog kind refresh _ => .catalog kind refresh (.done none)
  | .idf key _ => .idf key (.done none)

/-- **One event.** -/
def World.step (w : World) : Event → Option World
  | .commit op => (w.db.commit op).map fun db =>
      { w with db := db, calls := w.calls.mapValues fun _ c => { c with undisturbed := false } }
  | .catalog i kind refresh =>
    if (w.calls.lookup i).isSome then none
    else
      let hit := w.catalogs.lookup kind
      match hit, refresh with
      | some (_, c), false => some (w.putCall i ⟨true, .catalog kind false (.done (some c))⟩)
      | _, _ => some (w.putCall i ⟨true, .catalog kind refresh (.titles hit)⟩)
  | .idf i kind which castTopn =>
    if (w.calls.lookup i).isSome then none
    else some (w.putCall i ⟨true, .idf (idfKey kind which castTopn) .titles⟩)
  | .next i => (w.calls.lookup i).bind fun c =>
    match c.body with
    | .catalog kind refresh stage => (w.catalogNext i kind stage).map fun (w, stage) =>
        w.putCall i { c with body := .catalog kind refresh stage }
    | .idf key stage => (w.idfNext key stage).map fun (w, stage) =>
        w.putCall i { c with body := .idf key stage }
  | .fail i => (w.calls.lookup i).map fun c =>
    { w with building := if w.building = some i then none else w.building }.putCall i
      { c with body := c.body.fail }

/-! ### What a call returns -/

/-- What has been returned, by a call that revalidates, is what the tables give. -/
def Body.Current (t : TitleTables) (features : RowTable FeatureRow) : Body → Prop
  | .catalog kind true (.done (some c)) => buildCatalog kind t features = some c
  | .idf key (.done (some v)) => idfOf key t.titleKeys (t.credits key) = v
  | _ => True

/-- **The caches follow the catalog**: a call that no transaction has come between returns what the
tables give. -/
def World.Follows (w : World) : Prop :=
  ∀ i c, w.calls.lookup i = some c → c.undisturbed = true →
    c.body.Current w.db.tables w.db.titleFeatures

/-! ### The fingerprints that are carried -/

/-- The whole fingerprint that a call has read. -/
def CatalogStage.gen : CatalogStage → Option Generations
  | .lock gen | .rows gen | .cast gen _ | .crew gen _ _ | .keywords gen _ _ _ | .insert gen _ =>
    some gen
  | _ => none

/-- The entry that a call has found, and the titles' fingerprint that it has read so far. -/
def CatalogStage.hit : CatalogStage → Option CatalogEntry
  | .titles hit | .features hit _ => hit
  | _ => none

def CatalogStage.titlesRead : CatalogStage → Option (Generation Stamp)
  | .features _ g => some g
  | _ => none

/-- The fingerprints that a call for a catalog carries. -/
def CatalogStage.generations (s : CatalogStage) : List Generations :=
  s.gen.toList ++ s.hit.toList.map Prod.fst

def IdfStage.gen : IdfStage → Option Generations
  | .check gen | .df gen | .count gen _ | .insert gen _ => some gen
  | _ => none

def IdfStage.titlesRead : IdfStage → Option (Generation Stamp)
  | .credits g => some g
  | _ => none

/-- The fingerprints of catalogs, cached or read by a call. -/
def World.catalogGenerations (w : World) : List Generations :=
  w.catalogs.values.map Prod.fst ++ w.calls.values.flatMap fun c =>
    match c.body with
    | .catalog _ _ stage => stage.generations
    | .idf _ _ => []

def World.titlesSeen (w : World) : List (Generation Stamp) :=
  w.catalogGenerations.map Prod.fst ++ w.calls.values.filterMap fun c =>
    match c.body with
    | .catalog _ _ stage => stage.titlesRead
    | .idf _ _ => none

def World.featuresSeen (w : World) : List (Generation Stamp) :=
  w.catalogGenerations.map Prod.snd

/-- The fingerprints of weights, cached or read by a call. -/
def World.idfGenerations (w : World) : List (IdfKey × Generations) :=
  w.idf.entries.map (fun e => (e.1, e.2.1)) ++ w.calls.values.filterMap fun c =>
    match c.body with
    | .catalog _ _ _ => none
    | .idf key stage => stage.gen.map (key, ·)

def World.idfTitlesSeen (w : World) : List (Generation Stamp) :=
  w.idfGenerations.map (fun e => e.2.1) ++ w.calls.values.filterMap fun c =>
    match c.body with
    | .catalog _ _ _ => none
    | .idf _ stage => stage.titlesRead

def World.creditsSeen (w : World) : List (IdfKey × Generation Stamp) :=
  w.idfGenerations.map fun e => (e.1, e.2.2)

/-- **A transaction stays ahead of the fingerprints that are carried.**

* A title or features that are written have a stamp after the newest of a catalog's fingerprint.
* Rows that come into the titles or the credits reach beyond the rowids of a fingerprint of
  weights; and where rows beyond the rowids of a fingerprint are deleted, others beyond them
  are left.
* When every stamp is taken from the features, a fingerprint of features has one. -/
def World.Ahead (w : World) : Op → Prop
  | .persistDetail d now =>
    let t := w.db.tables
    if d.unwanted then
      (∀ g ∈ w.titlesSeen ++ w.idfTitlesSeen,
        Reaches g.maxRowid (fun r => r.key = d.key) [] t.titles) ∧
      (∀ g ∈ w.featuresSeen,
        Reaches g.maxRowid (fun r => r.key = d.key) [] w.db.titleFeatures) ∧
      ∀ e ∈ w.creditsSeen, Reaches e.2.maxRowid (fun r => r.key = d.key) [] (t.credits e.1)
    else
      (∀ g ∈ w.titlesSeen, g.newest < now) ∧
      (∀ g ∈ w.idfTitlesSeen,
        (t.titles.any fun x => x.2.key = d.key) = false → g.maxRowid ≤ t.titles.maxRowid) ∧
      ∀ e ∈ w.creditsSeen, Reaches e.2.maxRowid (fun r => r.key = d.key)
        (d.children.credits d.key e.1) (t.credits e.1)
  | .persist _ computedAt => ∀ g ∈ w.featuresSeen, g.newest < computedAt
  | .reconcile identity => w.db.otherModel identity = true →
      ∀ g ∈ w.featuresSeen, 0 < g.count → g.newest ≠ ⊥

def ahead (w : World) : Event → Prop
  | .commit op => w.Ahead op
  | _ => True

/-! ### The fingerprints as watches -/

/-- The titles with their children, by the titles' fingerprint. -/
def titlesWatch : Watch TitleTables (Generation Stamp) :=
  (watchColumn TitleRow.fetchedAt).comap TitleTables.titles

/-- All that a catalog is computed from, by its fingerprint. -/
def catalogWatch : Watch (TitleTables × RowTable FeatureRow) Generations :=
  titlesWatch.prod (watchColumn FeatureRow.computedAt)

/-- All that the weights are computed from, by their fingerprint. -/
def idfWatch : Watch (RowTable Key × RowTable Credit) Generations :=
  watchRows.prod watchRows

def catalogPart (db : CatalogDb) : TitleTables × RowTable FeatureRow :=
  (db.tables, db.titleFeatures)

def idfPart (key : IdfKey) (db : CatalogDb) : RowTable Key × RowTable Credit :=
  (db.tables.titleKeys, db.tables.credits key)

/-! ### A transaction that stays ahead -/

section Commit

variable {w : World} {db : CatalogDb} {t : TitleTables} {d : Detail} {key : Key}
  {g : Generation Stamp} {idfK : IdfKey} {op : Op}

theorem titlesWatch_upsertTitle {now : Stamp} (h : g.newest < now) :
    titlesWatch.Ahead g t (t.upsertTitle d now) := by
  have hrow : g.newest < TitleDb.TitleRow.fetchedAt ⟨d.key, d.columns, now⟩ := h
  let p (r : TitleDb.TitleRow) : Bool := r.key = d.key
  have hkept (ho : titlesWatch.overtaken g t) : titlesWatch.overtaken g (t.upsertTitle d now) :=
    RowTable.Overwritten.upsert (p := p) ho hrow
  have hover (hg : titlesWatch.read t = g) : titlesWatch.overtaken g (t.upsertTitle d now) :=
    RowTable.overwritten_upsert (p := p) hg hrow
  exact ⟨hkept, fun hg => .inr (hover hg)⟩

theorem titlesWatch_deleteTitle (ho : t.Owned)
    (h : Reaches g.maxRowid (fun r => r.key = key) [] t.titles) :
    titlesWatch.Ahead g t (t.deleteTitle key) := by
  refine Watch.Ahead.comap (RowTable.ahead_remove h) fun heq => ?_
  -- the title has not been there, so none of its children has
  refine ho.deleteTitle_eq_self ?_
  rintro ⟨x, hx, hkey⟩
  have hx' : x ∈ t.titles.remove fun r => r.key = key := by rwa [← heq] at hx
  simpa [hkey] using (RowTable.mem_remove.mp hx').2

theorem watchRows_upsertTitle {now : Stamp}
    (h : (t.titles.any fun x => x.2.key = d.key) = false → g.maxRowid ≤ t.titles.maxRowid) :
    watchRows.Ahead g t.titleKeys (t.upsertTitle d now).titleKeys := by
  have hkeys := RowTable.update_upsert (t := t.titles) (p := fun r => r.key = d.key)
    (v := ⟨d.key, d.columns, now⟩) TitleRow.key fun r hr => of_decide_eq_true hr
  rcases hkeys with heq | ⟨hnew, heq⟩
  · rw [TitleTables.titleKeys, TitleTables.titleKeys, TitleTables.upsertTitle, heq]
    exact .refl
  · rw [TitleTables.titleKeys, TitleTables.titleKeys, TitleTables.upsertTitle, heq]
    exact RowTable.ahead_append ((h hnew).trans_eq (RowTable.maxRowid_update _).symm)

theorem watchRows_deleteTitle
    (h : Reaches g.maxRowid (fun r => r.key = key) [] t.titles) :
    watchRows.Ahead g t.titleKeys (t.deleteTitle key).titleKeys := by
  have hkeys : (t.deleteTitle key).titleKeys =
      RowTable.rewrite (fun k => k = key) [] t.titleKeys :=
    RowTable.update_remove (q := fun k => k = key) TitleRow.key fun _ => rfl
  rw [hkeys]
  exact RowTable.ahead_rewrite (h.update TitleRow.key fun _ => rfl)

theorem credits_writeChildren (t : TitleTables) (c : Children) :
    (t.writeChildren key c).credits idfK =
      (t.credits idfK).rewrite (fun r => r.key = key) (c.credits key idfK) := by
  rcases idfK with ⟨kind, _ | _, castTopn⟩
  · have h := RowTable.update_rewrite (t := t.titleCast) (p := fun r => r.key = key)
      (CastRow.credit castTopn) (c.cast.map fun p => ⟨key, p.1, p.2⟩) (q := fun r => r.key = key)
      fun _ => rfl
    exact h.trans (by rw [List.map_map]; rfl)
  · have h := RowTable.update_rewrite (t := t.titleCrew) (p := fun r => r.key = key)
      CrewRow.credit (c.crew.map fun p => ⟨key, p.1, p.2⟩) (q := fun r => r.key = key)
      fun _ => rfl
    exact h.trans (by rw [List.map_map]; rfl)

/-- **A catalog's fingerprint and a transaction that stays ahead of it.** -/
theorem World.Ahead.catalogWatch (ho : w.db.tables.Owned) (h : w.Ahead op)
    (hc : w.db.commit op = some db) :
    (∀ g ∈ w.titlesSeen, titlesWatch.Ahead g w.db.tables db.tables) ∧
      ∀ g ∈ w.featuresSeen,
        (watchColumn FeatureRow.computedAt).Ahead g w.db.titleFeatures db.titleFeatures := by
  rcases op with ⟨d, now⟩ | ⟨chunk, computedAt⟩ | identity
  · simp only [CatalogDb.commit, CatalogDb.persistDetail] at hc
    rw [World.Ahead] at h
    by_cases hd : d.unwanted
    · rw [if_pos hd] at hc h
      obtain ⟨-, rfl⟩ := Option.ite_none_right_eq_some.mp hc |>.imp id Option.some.inj
      exact ⟨fun g hg => titlesWatch_deleteTitle ho (h.1 g (List.mem_append_left _ hg)),
        fun g hg => RowTable.ahead_remove (h.2.1 g hg)⟩
    · rw [if_neg hd] at hc h
      obtain ⟨-, rfl⟩ := Option.ite_none_right_eq_some.mp hc |>.imp id Option.some.inj
      exact ⟨fun g hg => titlesWatch_upsertTitle (h.1 g hg), fun g _ => .refl⟩
  · obtain ⟨-, rfl⟩ := Option.ite_none_right_eq_some.mp hc |>.imp id Option.some.inj
    exact ⟨fun g _ => .refl, fun g hg => RowTable.ahead_foldl_upsert fun e _ => h g hg⟩
  · obtain rfl := Option.some.inj hc
    refine ⟨fun g _ => .refl, fun g hg => ?_⟩
    rw [CatalogDb.reconcileModelIdentity]
    by_cases hother : w.db.otherModel identity
    · dsimp only
      rw [if_pos hother]
      exact RowTable.ahead_update (fun _ => rfl) (h hother g hg)
    · dsimp only
      rw [if_neg hother]
      exact .refl

/-- **A fingerprint of weights and a transaction that stays ahead of it.** -/
theorem World.Ahead.idfWatch (h : w.Ahead op) (hc : w.db.commit op = some db) :
    (∀ g ∈ w.idfTitlesSeen, watchRows.Ahead g w.db.tables.titleKeys db.tables.titleKeys) ∧
      ∀ e ∈ w.creditsSeen,
        watchRows.Ahead e.2 (w.db.tables.credits e.1) (db.tables.credits e.1) := by
  rcases op with ⟨d, now⟩ | ⟨chunk, computedAt⟩ | identity
  · simp only [CatalogDb.commit, CatalogDb.persistDetail] at hc
    rw [World.Ahead] at h
    by_cases hd : d.unwanted
    · rw [if_pos hd] at hc h
      obtain ⟨-, rfl⟩ := Option.ite_none_right_eq_some.mp hc |>.imp id Option.some.inj
      refine ⟨fun g hg => watchRows_deleteTitle (h.1 g (List.mem_append_right _ hg)),
        fun e he => ?_⟩
      have heq : (w.db.tables.deleteTitle d.key).credits e.1 =
          (w.db.tables.credits e.1).rewrite (fun r => r.key = d.key)
            (Children.none.credits d.key e.1) := credits_writeChildren w.db.tables .none
      have hnil : Children.none.credits d.key e.1 = [] := by
        rw [Children.credits]
        split <;> rfl
      rw [heq, hnil]
      exact RowTable.ahead_rewrite (h.2.2 e he)
    · rw [if_neg hd] at hc h
      obtain ⟨-, rfl⟩ := Option.ite_none_right_eq_some.mp hc |>.imp id Option.some.inj
      refine ⟨fun g hg => watchRows_upsertTitle (h.2.1 g hg), fun e he => ?_⟩
      have heq : (w.db.tables.upsertTitle d now).credits e.1 =
          (w.db.tables.credits e.1).rewrite (fun r => r.key = d.key)
            (d.children.credits d.key e.1) := credits_writeChildren w.db.tables d.children
      rw [heq]
      exact RowTable.ahead_rewrite (h.2.2 e he)
  · obtain ⟨-, rfl⟩ := Option.ite_none_right_eq_some.mp hc |>.imp id Option.some.inj
    exact ⟨fun g _ => .refl, fun e _ => .refl⟩
  · obtain rfl := Option.some.inj hc
    exact ⟨fun g _ => .refl, fun e _ => .refl⟩

end Commit

/-! ### What is filed -/

/-- What an entry of the catalogs says of the tables. -/
def CatalogEntry.Says (kind : Kind) (e : CatalogEntry)
    (s : TitleTables × RowTable FeatureRow) : Prop :=
  buildCatalog kind s.1 s.2 = some e.2

def IdfEntry.Says (key : IdfKey) (e : IdfEntry) (s : RowTable Key × RowTable Credit) : Prop :=
  idfOf key s.1 s.2 = e.2

def CatalogStage.Says (kind : Kind) (s : TitleTables × RowTable FeatureRow) : CatalogStage → Prop
  | .cast _ rs => rs = catalogRows kind s.1 s.2
  | .crew _ rs people => rs = catalogRows kind s.1 s.2 ∧ people = castPairs kind s.1
  | .keywords _ rs people makers =>
    (rs = catalogRows kind s.1 s.2 ∧ people = castPairs kind s.1) ∧ makers = crewPairs kind s.1
  | .insert _ cat => buildCatalog kind s.1 s.2 = some cat
  | _ => True

def IdfStage.Says (key : IdfKey) (s : RowTable Key × RowTable Credit) : IdfStage → Prop
  | .count _ counts => counts = dfRows key.kind s.2
  | .insert _ v => idfOf key s.1 s.2 = v
  | _ => True

/-- **What a call for a catalog carries is filed rightly.** -/
structure CatalogStage.Filed (kind : Kind) (db : CatalogDb) (stage : CatalogStage) : Prop where
  hit : ∀ e ∈ stage.hit, catalogWatch.Holds e.1 (e.Says kind) (catalogPart db)
  titles : ∀ g ∈ stage.titlesRead, titlesWatch.Holds g (fun _ => True) db.tables
  gen : ∀ gen ∈ stage.gen, catalogWatch.Holds gen (fun s => stage.Says kind s) (catalogPart db)

/-- **What a call for the weights carries is filed rightly.** -/
structure IdfStage.Filed (key : IdfKey) (db : CatalogDb) (stage : IdfStage) : Prop where
  titles : ∀ g ∈ stage.titlesRead, watchRows.Holds g (fun _ => True) db.tables.titleKeys
  gen : ∀ gen ∈ stage.gen, idfWatch.Holds gen (fun s => stage.Says key s) (idfPart key db)

def Body.Filed (db : CatalogDb) : Body → Prop
  | .catalog kind _ stage => stage.Filed kind db
  | .idf key stage => stage.Filed key db

/-- The fingerprints that an undisturbed call has read are those of the tables. -/
def Body.Fresh (db : CatalogDb) : Body → Prop
  | .catalog _ _ stage => (∀ g ∈ stage.titlesRead, titlesWatch.read db.tables = g) ∧
      ∀ gen ∈ stage.gen, catalogWatch.read (catalogPart db) = gen
  | .idf key stage => (∀ g ∈ stage.titlesRead, watchRows.read db.tables.titleKeys = g) ∧
      ∀ gen ∈ stage.gen, idfWatch.read (idfPart key db) = gen

structure Call.Ok (db : CatalogDb) (c : Call) : Prop where
  filed : c.body.Filed db
  fresh : c.undisturbed = true →
    c.body.Fresh db ∧ c.body.Current db.tables db.titleFeatures

/-- **The invariant**: every entry and every call has filed what it has read under a fingerprint
that is overtaken or the tables'. -/
structure World.Inv (w : World) : Prop where
  owned : w.db.tables.Owned
  catalogs : ∀ kind e, w.catalogs.lookup kind = some e →
    catalogWatch.Holds e.1 (e.Says kind) (catalogPart w.db)
  idf : ∀ key e, w.idf.lookup key = some e → idfWatch.Holds e.1 (e.Says key) (idfPart key w.db)
  calls : ∀ i c, w.calls.lookup i = some c → c.Ok w.db

section Next

variable {w w' : World} {i : ℕ} {kind : Kind} {key : IdfKey} {refresh undisturbed : Bool}

theorem Body.current_running {s : CatalogStage} {t : TitleTables} {f : RowTable FeatureRow}
    (hs : ∀ out, s ≠ .done out) : (Body.catalog kind refresh s).Current t f := by
  rcases refresh with _ | _
  · trivial
  · rcases s with _ | _ | _ | _ | _ | _ | _ | _ | out
    all_goals first | trivial | exact absurd rfl (hs out)

theorem Call.Ok.read_eq {s : CatalogStage} {gen : Generations}
    (hc : (⟨undisturbed, .catalog kind refresh s⟩ : Call).Ok w.db) (hgen : s.gen = some gen)
    (hu : undisturbed = true) : catalogWatch.read (catalogPart w.db) = gen :=
  (hc.fresh hu).1.2 gen hgen

/-- **A statement that reads rows**: what it reads is filed with the rest. -/
theorem Call.Ok.readRows {s s' : CatalogStage} {gen : Generations}
    {Q : TitleTables × RowTable FeatureRow → Prop}
    (hc : (⟨undisturbed, .catalog kind refresh s⟩ : Call).Ok w.db) (hgen : s.gen = some gen)
    (hQ : Q (catalogPart w.db)) (hsaid : ∀ t, s.Says kind t ∧ Q t → s'.Says kind t)
    (hgen' : s'.gen = some gen) (hhit : s'.hit = none) (htitles : s'.titlesRead = none)
    (hcur : (Body.catalog kind refresh s').Current w.db.tables w.db.titleFeatures) :
    (⟨undisturbed, .catalog kind refresh s'⟩ : Call).Ok w.db := by
  have hfiled : CatalogStage.Filed kind w.db s := hc.filed
  refine ⟨⟨?_, ?_, ?_⟩, fun hu => ⟨⟨?_, ?_⟩, hcur⟩⟩
  · simp [hhit]
  · simp [htitles]
  · rintro g hg
    obtain rfl := Option.mem_unique hg hgen'
    exact ((hfiled.gen _ hgen).and hQ).imp hsaid
  · simp [htitles]
  · rintro g hg
    obtain rfl := Option.mem_unique hg hgen'
    exact hc.read_eq hgen hu

theorem Call.Ok.whole {hit : Option CatalogEntry} {g : Generation Stamp}
    (hc : (⟨undisturbed, .catalog kind refresh (.features hit g)⟩ : Call).Ok w.db) :
    (⟨undisturbed, .catalog kind refresh (.lock (g, featuresGeneration w.db))⟩ : Call).Ok w.db := by
  have hfiled : CatalogStage.Filed kind w.db (.features hit g) := hc.filed
  refine ⟨⟨nofun, nofun, fun gen hgen => ?_⟩, fun hu => ⟨⟨nofun, fun gen hgen => ?_⟩,
    Body.current_running nofun⟩⟩
  · obtain rfl := Option.some.inj hgen
    exact (hfiled.titles g rfl).prod_read
  · obtain rfl := Option.some.inj hgen
    exact Prod.ext ((hc.fresh hu).1.1 g rfl) rfl

theorem Call.ok_done {out : Option Catalog}
    (h : undisturbed = true → refresh = true → ∀ c ∈ out,
      buildCatalog kind w.db.tables w.db.titleFeatures = some c) :
    (⟨undisturbed, .catalog kind refresh (.done out)⟩ : Call).Ok w.db := by
  refine ⟨⟨nofun, nofun, nofun⟩, fun hu => ⟨⟨nofun, nofun⟩, ?_⟩⟩
  rcases out with _ | c
  · cases refresh <;> trivial
  · cases refresh
    · trivial
    · exact h hu rfl c rfl

/-- **A call for a catalog that goes on files what it reads**, and leaves the entries right. -/
theorem World.Inv.catalogNext {s s' : CatalogStage} (h : w.Inv)
    (hc : (⟨undisturbed, .catalog kind refresh s⟩ : Call).Ok w.db)
    (hs : w.catalogNext i kind s = some (w', s')) :
    w'.Inv ∧ w'.db = w.db ∧ (⟨undisturbed, .catalog kind refresh s'⟩ : Call).Ok w.db := by
  have hfiled : CatalogStage.Filed kind w.db s := hc.filed
  rcases s with hit | ⟨hit, g⟩ | gen | gen | ⟨gen, rs⟩ | ⟨gen, rs, people⟩ |
    ⟨gen, rs, people, makers⟩ | ⟨gen, cat⟩ | out
  · obtain ⟨rfl, rfl⟩ := Prod.mk.inj (Option.some.inj hs)
    refine ⟨h, rfl, ⟨hfiled.hit, ?_, nofun⟩, fun _ => ⟨⟨?_, nofun⟩, Body.current_running nofun⟩⟩
    · rintro g hg
      obtain rfl := Option.some.inj hg
      exact Watch.holds_read trivial
    · exact fun g hg => Option.some.inj hg
  · -- the fingerprint is whole, and is that of the entry found or not
    rcases hit with _ | ⟨gen, cat⟩
    · obtain ⟨rfl, rfl⟩ := Prod.mk.inj (Option.some.inj hs)
      exact ⟨h, rfl, hc.whole⟩
    · obtain ⟨rfl, rfl⟩ := Prod.mk.inj (Option.some.inj hs)
      refine ⟨h, rfl, ?_⟩
      by_cases hgen : gen = (g, featuresGeneration w.db)
      · rw [if_pos hgen]
        refine Call.ok_done fun hu _ c hcat => ?_
        obtain rfl := Option.some.inj hcat
        exact (hfiled.hit _ rfl).hit ((hc.whole.read_eq rfl hu).trans hgen.symm)
      · rw [if_neg hgen]
        exact hc.whole
  · -- the lock is free; meanwhile another call may have filed an entry
    have hrows : (⟨undisturbed, .catalog kind refresh (.rows gen)⟩ : Call).Ok w.db :=
      hc.readRows (Q := fun _ => True) rfl trivial (fun _ _ => trivial) rfl rfl rfl
        (Body.current_running nofun)
    have hinv : ({ w with building := some i } : World).Inv := ⟨h.owned, h.catalogs, h.idf, h.calls⟩
    simp only [World.catalogNext] at hs
    split at hs
    · cases hs
    split at hs
    · rename_i gen' cat hhit
      split at hs
      · rename_i hgen
        obtain ⟨rfl, rfl⟩ := Prod.mk.inj (Option.some.inj hs)
        refine ⟨h, rfl, Call.ok_done fun hu _ c hcat => ?_⟩
        obtain rfl := Option.some.inj hcat
        exact (h.catalogs kind _ hhit).hit ((hc.read_eq rfl hu).trans hgen.symm)
      · obtain ⟨rfl, rfl⟩ := Prod.mk.inj (Option.some.inj hs)
        exact ⟨hinv, rfl, hrows⟩
    · obtain ⟨rfl, rfl⟩ := Prod.mk.inj (Option.some.inj hs)
      exact ⟨hinv, rfl, hrows⟩
  · obtain ⟨rfl, rfl⟩ := Prod.mk.inj (Option.some.inj hs)
    exact ⟨h, rfl, hc.readRows (Q := fun t => _ = catalogRows kind t.1 t.2) rfl rfl
      (fun _ hsaid => hsaid.2) rfl rfl rfl (Body.current_running nofun)⟩
  · obtain ⟨rfl, rfl⟩ := Prod.mk.inj (Option.some.inj hs)
    exact ⟨h, rfl, hc.readRows (Q := fun t => _ = castPairs kind t.1) rfl rfl
      (fun _ hsaid => hsaid) rfl rfl rfl (Body.current_running nofun)⟩
  · obtain ⟨rfl, rfl⟩ := Prod.mk.inj (Option.some.inj hs)
    exact ⟨h, rfl, hc.readRows (Q := fun t => _ = crewPairs kind t.1) rfl rfl
      (fun _ hsaid => hsaid) rfl rfl rfl (Body.current_running nofun)⟩
  · -- the last of the rows
    simp only [World.catalogNext] at hs
    split at hs
    · rename_i cat hcat
      obtain ⟨rfl, rfl⟩ := Prod.mk.inj (Option.some.inj hs)
      refine ⟨h, rfl, hc.readRows (Q := fun t =>
        keywordPairs kind w.db.tables = keywordPairs kind t.1) rfl rfl ?_ rfl rfl rfl
        (Body.current_running nofun)⟩
      rintro t ⟨⟨⟨hrs, hpeople⟩, hmakers⟩, hkw⟩
      rwa [hrs, hpeople, hmakers, hkw] at hcat
    · obtain ⟨rfl, rfl⟩ := Prod.mk.inj (Option.some.inj hs)
      exact ⟨⟨h.owned, h.catalogs, h.idf, h.calls⟩, rfl, Call.ok_done nofun⟩
  · -- what has been computed is filed, and returned
    obtain ⟨rfl, rfl⟩ := Prod.mk.inj (Option.some.inj hs)
    have hcat := hfiled.gen gen rfl
    refine ⟨⟨h.owned, fun kind' e he => ?_, h.idf, h.calls⟩, rfl,
      Call.ok_done fun hu _ c hout => ?_⟩
    · rcases Table.lookup_insert_cases he with ⟨rfl, rfl⟩ | ⟨-, he⟩
      · exact hcat
      · exact h.catalogs kind' e he
    · obtain rfl := Option.some.inj hout
      exact hcat.hit (hc.read_eq rfl hu)
  · cases hs

theorem Call.ok_idf {s : IdfStage} {gen : Generations} (hgen : s.gen = some gen)
    (htitles : s.titlesRead = none)
    (hsaid : idfWatch.Holds gen (fun t => s.Says key t) (idfPart key w.db))
    (hread : undisturbed = true → idfWatch.read (idfPart key w.db) = gen)
    (hcur : (Body.idf key s).Current w.db.tables w.db.titleFeatures) :
    (⟨undisturbed, .idf key s⟩ : Call).Ok w.db := by
  refine ⟨⟨by simp [htitles], fun gen' hg => ?_⟩, fun hu => ⟨⟨by simp [htitles], fun gen' hg => ?_⟩,
    hcur⟩⟩
  · obtain rfl := Option.mem_unique hg hgen
    exact hsaid
  · obtain rfl := Option.mem_unique hg hgen
    exact hread hu

theorem Call.ok_idf_done {out : Option Idf}
    (h : undisturbed = true → ∀ v ∈ out, idfOf key w.db.tables.titleKeys
      (w.db.tables.credits key) = v) :
    (⟨undisturbed, .idf key (.done out)⟩ : Call).Ok w.db := by
  refine ⟨⟨nofun, nofun⟩, fun hu => ⟨⟨nofun, nofun⟩, ?_⟩⟩
  rcases out with _ | v
  · trivial
  · exact h hu v rfl

/-- **A call for the weights that goes on files what it reads**, and leaves the entries right. -/
theorem World.Inv.idfNext {s s' : IdfStage} (h : w.Inv)
    (hc : (⟨undisturbed, .idf key s⟩ : Call).Ok w.db)
    (hs : w.idfNext key s = some (w', s')) :
    w'.Inv ∧ w'.db = w.db ∧ (⟨undisturbed, .idf key s'⟩ : Call).Ok w.db := by
  have hfiled : IdfStage.Filed key w.db s := hc.filed
  -- the fingerprint that an undisturbed call has read is the tables'
  have hread {gen : Generations} (hgen : s.gen = some gen) (hu : undisturbed = true) :
      idfWatch.read (idfPart key w.db) = gen := (hc.fresh hu).1.2 gen hgen
  rcases s with _ | g | gen | gen | ⟨gen, df⟩ | ⟨gen, v⟩ | out
  · obtain ⟨rfl, rfl⟩ := Prod.mk.inj (Option.some.inj hs)
    refine ⟨h, rfl, ⟨fun g hg => ?_, nofun⟩,
      fun _ => ⟨⟨fun g hg => Option.some.inj hg, nofun⟩, trivial⟩⟩
    obtain rfl := Option.some.inj hg
    exact Watch.holds_read trivial
  · obtain ⟨rfl, rfl⟩ := Prod.mk.inj (Option.some.inj hs)
    exact ⟨h, rfl, Call.ok_idf rfl rfl (hfiled.titles g rfl).prod_read
      (fun hu => Prod.ext ((hc.fresh hu).1.1 g rfl) rfl) trivial⟩
  · have hdf : (⟨undisturbed, .idf key (.df gen)⟩ : Call).Ok w.db :=
      Call.ok_idf rfl rfl (hfiled.gen gen rfl) (hread rfl) trivial
    simp only [World.idfNext] at hs
    split at hs
    · rename_i gen' v hhit
      obtain ⟨rfl, rfl⟩ := Prod.mk.inj (Option.some.inj hs)
      refine ⟨h, rfl, ?_⟩
      by_cases hgen : gen' = gen
      · rw [if_pos hgen]
        refine Call.ok_idf_done fun hu u hout => ?_
        obtain rfl := Option.some.inj hout
        exact (h.idf key _ hhit).hit ((hread rfl hu).trans hgen.symm)
      · rw [if_neg hgen]
        exact hdf
    · obtain ⟨rfl, rfl⟩ := Prod.mk.inj (Option.some.inj hs)
      exact ⟨h, rfl, hdf⟩
  · obtain ⟨rfl, rfl⟩ := Prod.mk.inj (Option.some.inj hs)
    refine ⟨h, rfl, Call.ok_idf rfl rfl (((hfiled.gen gen rfl).and (Q := fun t =>
      dfRows key.kind (w.db.tables.credits key) = dfRows key.kind t.2) rfl).imp ?_) (hread rfl)
      trivial⟩
    rintro t ⟨-, hdf⟩
    exact hdf
  · obtain ⟨rfl, rfl⟩ := Prod.mk.inj (Option.some.inj hs)
    refine ⟨h, rfl, Call.ok_idf rfl rfl (((hfiled.gen gen rfl).and (Q := fun t =>
      titleCount key.kind w.db.tables.titleKeys = titleCount key.kind t.1) rfl).imp ?_) (hread rfl)
      trivial⟩
    rintro t ⟨hdf, hcount⟩
    have hdf' : df = dfRows key.kind t.2 := hdf
    show weigh (dfRows key.kind t.2) (titleCount key.kind t.1) = _
    rw [← hdf', ← hcount]
  · obtain ⟨rfl, rfl⟩ := Prod.mk.inj (Option.some.inj hs)
    have hv := hfiled.gen gen rfl
    refine ⟨⟨h.owned, h.catalogs, fun key' e he => ?_, h.calls⟩, rfl,
      Call.ok_idf_done fun hu u hout => ?_⟩
    · rcases Table.lookup_insert_cases he with ⟨rfl, rfl⟩ | ⟨-, he⟩
      · exact hv
      · exact h.idf key' e he
    · obtain rfl := Option.some.inj hout
      exact hv.hit (hread rfl hu)
  · cases hs

end Next

/-! ### The invariant -/

section Step

variable {w w' : World} {i : ℕ} {c : Call}

theorem World.Inv.putCall (h : w.Inv) (hc : c.Ok w.db) : (w.putCall i c).Inv := by
  refine ⟨h.owned, h.catalogs, h.idf, fun j c' hj => ?_⟩
  rcases Table.lookup_insert_cases hj with ⟨-, rfl⟩ | ⟨-, hj⟩
  · exact hc
  · exact h.calls j c' hj

/-- **A transaction that stays ahead keeps everything that is filed.** -/
theorem World.Inv.commit {op : Op} {db : CatalogDb} (h : w.Inv) (ha : w.Ahead op)
    (hc : w.db.commit op = some db) :
    ({ w with
        db := db
        calls := w.calls.mapValues fun _ c => { c with undisturbed := false } } : World).Inv := by
  obtain ⟨htitles, hfeatures⟩ := ha.catalogWatch h.owned hc
  obtain ⟨hkeys, hcredits⟩ := ha.idfWatch hc
  have hcatalog {gen : Generations} (hgen : gen ∈ w.catalogGenerations) :
      catalogWatch.Ahead gen (catalogPart w.db) (catalogPart db) :=
    (htitles _ (List.mem_append_left _ (List.mem_map_of_mem hgen))).prod
      (hfeatures _ (List.mem_map_of_mem hgen))
  have hidf {key : IdfKey} {gen : Generations} (hgen : (key, gen) ∈ w.idfGenerations) :
      idfWatch.Ahead gen (idfPart key w.db) (idfPart key db) :=
    (hkeys _ (List.mem_append_left _ (List.mem_map.mpr ⟨_, hgen, rfl⟩))).prod
      (hcredits (key, gen.2) (List.mem_map.mpr ⟨_, hgen, rfl⟩))
  refine ⟨h.owned.commit hc, fun kind e he => ?_, fun key e he => ?_, fun j c' hj => ?_⟩
  · exact (h.catalogs kind e he).write (hcatalog (List.mem_append_left _
      (List.mem_map_of_mem (Table.mem_values_of_lookup he))))
  · exact (h.idf key e he).write (hidf (List.mem_append_left _ (List.mem_map.mpr
      ⟨⟨key, e⟩, AList.mem_lookup_iff.mp he, rfl⟩)))
  · rw [Table.lookup_mapValues] at hj
    obtain ⟨c, hc, rfl⟩ := Option.map_eq_some_iff.mp hj
    have hmem := Table.mem_values_of_lookup hc
    refine ⟨?_, nofun⟩
    have hfiled := (h.calls j c hc).filed
    rcases c with ⟨u, ⟨kind, refresh, s⟩ | ⟨key, s⟩⟩
    · have hgens {gen : Generations} (hgen : gen ∈ s.generations) : gen ∈ w.catalogGenerations :=
        List.mem_append_right _ (List.mem_flatMap.mpr ⟨_, hmem, hgen⟩)
      have hs : s.Filed kind w.db := hfiled
      refine ⟨fun e he => ?_, fun g hg => ?_, fun gen hgen => ?_⟩
      · exact (hs.hit e he).write (hcatalog (hgens (List.mem_append_right _
          (List.mem_map_of_mem (Option.mem_toList.mpr he)))))
      · exact (hs.titles g hg).write (htitles g (List.mem_append_right _
          (List.mem_filterMap.mpr ⟨_, hmem, hg⟩)))
      · exact (hs.gen gen hgen).write (hcatalog (hgens (List.mem_append_left _
          (Option.mem_toList.mpr hgen))))
    · have hs : s.Filed key w.db := hfiled
      refine ⟨fun g hg => ?_, fun gen hgen => ?_⟩
      · exact (hs.titles g hg).write (hkeys g (List.mem_append_right _
          (List.mem_filterMap.mpr ⟨_, hmem, hg⟩)))
      · refine (hs.gen gen hgen).write (hidf (List.mem_append_right _
          (List.mem_filterMap.mpr ⟨_, hmem, ?_⟩)))
        exact congrArg (Option.map (key, ·)) hgen

/-- **One event keeps what is filed.** -/
theorem World.Inv.step {event : Event} (h : w.Inv) (ha : ahead w event)
    (hs : w.step event = some w') : w'.Inv := by
  rcases event with op | ⟨i, kind, refresh⟩ | ⟨i, kind, which, castTopn⟩ | i | i
  · obtain ⟨db, hc, rfl⟩ := Option.map_eq_some_iff.mp hs
    exact h.commit ha hc
  · -- a call begins with the entry of the cache
    simp only [World.step] at hs
    split at hs
    · cases hs
    split at hs
    · obtain rfl := Option.some.inj hs
      exact h.putCall (Call.ok_done nofun)
    · obtain rfl := Option.some.inj hs
      refine h.putCall ⟨⟨fun e he => h.catalogs kind e he, nofun, nofun⟩,
        fun _ => ⟨⟨nofun, nofun⟩, Body.current_running nofun⟩⟩
  · obtain ⟨-, hs⟩ := Option.ite_none_left_eq_some.mp hs
    obtain rfl := Option.some.inj hs
    exact h.putCall ⟨⟨nofun, nofun⟩, fun _ => ⟨⟨nofun, nofun⟩, trivial⟩⟩
  · obtain ⟨⟨u, body⟩, hc, hs⟩ := Option.bind_eq_some_iff.mp hs
    rcases body with ⟨kind, refresh, s⟩ | ⟨key, s⟩
    · obtain ⟨⟨v, s'⟩, hnext, rfl⟩ := Option.map_eq_some_iff.mp hs
      obtain ⟨hv, hdb, hok⟩ := h.catalogNext (h.calls i _ hc) hnext
      exact hv.putCall (hdb ▸ hok)
    · obtain ⟨⟨v, s'⟩, hnext, rfl⟩ := Option.map_eq_some_iff.mp hs
      obtain ⟨hv, hdb, hok⟩ := h.idfNext (h.calls i _ hc) hnext
      exact hv.putCall (hdb ▸ hok)
  · obtain ⟨⟨u, body⟩, hc, rfl⟩ := Option.map_eq_some_iff.mp hs
    refine World.Inv.putCall ⟨h.owned, h.catalogs, h.idf, h.calls⟩ ?_
    rcases body with ⟨kind, refresh, s⟩ | ⟨key, s⟩
    · exact Call.ok_done nofun
    · exact Call.ok_idf_done nofun

theorem World.Inv.follows (h : w.Inv) : w.Follows :=
  fun i c hc hu => ((h.calls i c hc).fresh hu).2

end Step

/-! ### Writes that stay ahead, and writes that do not -/

instance (w : World) : ∀ op, Decidable (w.Ahead op)
  | .persistDetail _ _ => inferInstanceAs (Decidable (ite _ _ _))
  | .persist _ _ => inferInstanceAs (Decidable (∀ g ∈ w.featuresSeen, _))
  | .reconcile _ => inferInstanceAs (Decidable (_ → _))

instance (w : World) : ∀ event, Decidable (ahead w event)
  | .commit op => inferInstanceAs (Decidable (w.Ahead op))
  | .catalog _ _ _ | .idf _ _ _ _ | .next _ | .fail _ => inferInstanceAs (Decidable True)

/-- A film with so many votes, and one person in its cast. -/
def film (tmdbId votes person : ℤ) : Detail where
  key := ⟨.movie, tmdbId⟩
  adult := false
  columns := ⟨"Heat", some 1995, some "1995-12-15", none, votes, none, some "Released", some "en",
    "\x7b\x7d"⟩
  children := ⟨[80], [], [(person, some 0)], []⟩

end EmeraldExchange.Recommender.Caches
